import DesktopSync.Analysis.Completion
import DesktopSync.Model.UploadLedger

/-!
# What an upload leaves behind

The path of a failed connection releases all that was acquired. The path of a call that
sends its files never frees the address list, and an exception from the directory or from
`file_size` leaves all three behind.
-/

set_option autoImplicit false

namespace DesktopSync.Analysis

open DesktopSync.Model
open Ledger

/-- The call ends by returning a `bool`, and what it acquired has been released exactly
once. -/
def ExitsCleanly (call : LedgeredUpload) : Prop :=
  (∃ b, call.upload.result = .returned b) ∧ Clean call.ledger

/-- The call gets a connection, or gets as far as an exception from `UDT::startup`. -/
def GetsStarted (cfg : Option IniState) (peerIp : Option WString) (env : UploadEnv)
    (transport : TransportEnv) : Prop :=
  cfg.isSome = true ∧ ∃ ip, peerIp = some ip ∧ env.resolves (wideToUtf8 ip) = true ∧
    (transport.starts = false ∨ transport.opens = true ∧ env.connects = true)

/-- The ledger of a call whose connection fails is clean, whether it got a socket or not. -/
theorem clean_of_connect_failed (transport : TransportEnv) :
    Clean ([.acquire .addrinfo, .acquire .startup] ++ transport.socket ++ [.release .addrinfo] ++
      transport.close ++ [.release .startup]) := by
  unfold TransportEnv.socket TransportEnv.close
  cases transport.opens <;> decide

/-- No way out of a call that got a connection frees the address list. -/
theorem leaks_of_started {cfg : Option IniState} {peerIp : Option WString} {env : UploadEnv}
    {transport : TransportEnv} (sink : Wire) (h : GetsStarted cfg peerIp env transport) :
    .acquire .addrinfo ∈ (syncUploadOnceLedger cfg peerIp env transport sink).ledger ∧
      .release .addrinfo ∉ (syncUploadOnceLedger cfg peerIp env transport sink).ledger := by
  obtain ⟨hcfg, ip, rfl, hresolves, hstarted⟩ := h
  obtain ⟨cfg, rfl⟩ := Option.isSome_iff_exists.mp hcfg
  have hsocket : ∀ r, .release r ∉ transport.socket := by
    intro r
    unfold TransportEnv.socket
    split <;> simp
  have hclose : .release .addrinfo ∉ transport.close := by
    unfold TransportEnv.close
    split <;> simp
  unfold syncUploadOnceLedger
  simp only [hresolves, Bool.not_true, Bool.false_eq_true, if_false]
  split
  · simp
  · next hstarts =>
      have hconnected : (transport.opens && env.connects) = true := by
        rw [Bool.and_eq_true]
        apply hstarted.resolve_left
        intro hfalse
        rw [hfalse] at hstarts
        exact hstarts rfl
      simp only [hconnected, Bool.not_true, Bool.false_eq_true, if_false]
      split
      · simp [hsocket]
      · split
        · simp [hsocket]
        · split
          · simp [hsocket]
          · simp [hsocket, hclose]

/-- A call that never got a connection has released what it acquired. -/
theorem exitsCleanly_of_not_started {cfg : Option IniState} {peerIp : Option WString}
    {env : UploadEnv} {transport : TransportEnv} (sink : Wire)
    (h : ¬GetsStarted cfg peerIp env transport) :
    ExitsCleanly (syncUploadOnceLedger cfg peerIp env transport sink) := by
  unfold syncUploadOnceLedger
  cases cfg with
  | none => exact ⟨⟨false, rfl⟩, .nil⟩
  | some cfg =>
      cases peerIp with
      | none => exact ⟨⟨false, rfl⟩, .nil⟩
      | some ip =>
          simp only
          cases hresolves : env.resolves (wideToUtf8 ip) with
          | false => exact ⟨⟨false, rfl⟩, .nil⟩
          | true =>
              have hnot : ¬(transport.starts = false ∨
                  transport.opens = true ∧ env.connects = true) :=
                fun hstarted => h ⟨rfl, ip, rfl, hresolves, hstarted⟩
              rw [not_or, Bool.not_eq_false, ← Bool.and_eq_true, Bool.not_eq_true] at hnot
              simp only [hnot.1, hnot.2, Bool.not_true, Bool.not_false, Bool.false_eq_true,
                if_false, if_true]
              exact ⟨⟨false, rfl⟩, clean_of_connect_failed transport⟩

/-- A call exits cleanly if and only if it returns before it has a connection, by a test or
by the failure of `getaddrinfo`, `UDT::socket` or `UDT::connect`. -/
theorem syncUploadOnce_clean_iff (cfg : Option IniState) (peerIp : Option WString)
    (env : UploadEnv) (transport : TransportEnv) (sink : Wire) :
    ExitsCleanly (syncUploadOnceLedger cfg peerIp env transport sink) ↔
      ¬GetsStarted cfg peerIp env transport := by
  constructor
  · intro hclean hstarted
    obtain ⟨hacquire, hrelease⟩ := leaks_of_started sink hstarted
    exact not_clean_of_leak hacquire hrelease hclean.2
  · exact exitsCleanly_of_not_started sink

/-- An empty desktop and a peer that is reached. -/
def quietUpload : UploadEnv where
  resolves _ := true
  connects := true
  listing := some []
  now := 0
  pads _ := 0
  md5 := sampleMd5

/-- Nothing fails, and the address list is never freed. -/
theorem syncUploadOnce_leaks :
    ¬∀ (cfg : Option IniState) (peerIp : Option WString) (env : UploadEnv)
      (transport : TransportEnv) (sink : Wire),
      ExitsCleanly (syncUploadOnceLedger cfg peerIp env transport sink) := by
  intro h
  have hclean := h (some sampleCfg) (some []) quietUpload ⟨true, true⟩ ⟨[], [], fun _ => 0, 0⟩
  have hstarted : GetsStarted (some sampleCfg) (some []) quietUpload ⟨true, true⟩ :=
    ⟨rfl, [], rfl, rfl, .inr ⟨rfl, rfl⟩⟩
  obtain ⟨hacquire, hrelease⟩ := leaks_of_started ⟨[], [], fun _ => 0, 0⟩ hstarted
  exact not_clean_of_leak hacquire hrelease hclean.2

end DesktopSync.Analysis
