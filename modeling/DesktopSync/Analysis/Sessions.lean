import DesktopSync.Analysis.Convergence
import DesktopSync.Model.Sessions

/-!
# What is under way between two peers

Over many sessions the bytes between two peers are HELLOs, the packets of the copies that
have been read and are not stored yet, and ENDs. Whatever the main thread sends goes behind
them, and the server takes the first.
-/

set_option autoImplicit false

namespace DesktopSync.Analysis

open DesktopSync.Model
open Framing Exchange TransitionSystem

/-- The bytes of these copies, with HELLOs and ENDs between them. -/
inductive Underway (md5 : Digest) : List Copy → List UInt8 → Prop
  | nothing : Underway md5 [] []
  | hello {flight : List Copy} {bytes : List UInt8} (now : UInt64) (pad : UInt16) :
      Underway md5 flight bytes →
      Underway md5 flight ((helloHeader now pad).toBytes ++ bytes)
  | copy {flight : List Copy} {bytes : List UInt8} (pad : UInt16) (c : Copy) :
      Utf.WellFormed c.name.units → c.data.length < 2 ^ 64 → Underway md5 flight bytes →
      Underway md5 (c :: flight) (copyBytes md5 pad c.name c.data ++ bytes)
  | ending {flight : List Copy} {bytes : List UInt8} (pad : UInt16) :
      Underway md5 flight bytes →
      Underway md5 flight (PacketHeader.toBytes { opcode := opcodeEnd, pad := pad } ++ bytes)

namespace Underway

variable {md5 : Digest} {flight : List Copy} {bytes : List UInt8}

/-- More can be sent behind what is under way. -/
theorem append {more : List Copy} {tail : List UInt8} (h : Underway md5 flight bytes)
    (htail : Underway md5 more tail) : Underway md5 (flight ++ more) (bytes ++ tail) := by
  induction h with
  | nothing => exact htail
  | hello now pad _ ih =>
      rw [List.append_assoc]
      exact .hello now pad ih
  | copy pad c hwf hsized _ ih =>
      rw [List.append_assoc]
      exact .copy pad c hwf hsized ih
  | ending pad _ ih =>
      rw [List.append_assoc]
      exact .ending pad ih

/-- A pass of the packet loop takes a HELLO, stores the oldest copy, or ends at END; anything
else is no complete session. -/
theorem handlePacket {conn : Conn} (cfg : IniState) (reply : StoreReply) (pos : ℕ)
    (h : Underway md5 flight bytes) (hconn : conn.toList = bytes) :
    (∃ conn', Model.handlePacket cfg reply pos conn = .next none headerSize conn' ∧
        Underway md5 flight (bytes.drop headerSize)) ∨
      (∃ c rest size w conn', flight = c :: rest ∧ c.data.length < 2 ^ 64 ∧
        Model.handlePacket cfg reply pos conn = .next (some w) size conn' ∧
        w.target = WindowsPath.join (targetDirOf cfg) c.name.units ∧ w.data = c.data ∧
        Underway md5 rest (bytes.drop size)) ∨
      (∃ conn', Model.handlePacket cfg reply pos conn = .done (.returned true) conn' ∧
        headerSize ≤ bytes.length ∧ Underway md5 flight (bytes.drop headerSize)) ∨
      ∃ outcome conn', outcome ≠ .returned true ∧
        Model.handlePacket cfg reply pos conn = .done outcome conn' := by
  cases h with
  | nothing =>
      have hfront : packetFront conn.toList = .short := by rw [hconn]; rfl
      obtain ⟨conn', hpacket⟩ := handlePacket_of_short cfg reply pos hfront
      exact .inr (.inr (.inr ⟨_, conn', by simp, hpacket⟩))
  | @hello _ tail now pad htail =>
      have hfront : packetFront conn.toList = .frame none headerSize := by
        rw [hconn]
        exact packetFront_header rfl (show opcodeHello ≠ opcodeEnd by decide)
          (show opcodeHello ≠ opcodeFile by decide) tail
      obtain ⟨conn', hpacket, -⟩ := handlePacket_of_frame cfg reply pos hfront
      refine .inl ⟨conn', hpacket, ?_⟩
      rw [drop_toBytes]
      exact htail
  | @copy rest tail pad c hwf hsized htail =>
      rcases Pending.handlePacket_copy cfg reply pos hwf hsized hconn with
        ⟨size, w, conn', hpacket, htarget, hdata, hdrop⟩ | hdone
      · refine .inr (.inl ⟨c, rest, size, w, conn', rfl, hsized, hpacket, htarget, hdata, ?_⟩)
        rw [hdrop]
        exact htail
      · exact .inr (.inr (.inr hdone))
  | @ending _ tail pad htail =>
      have hfront : packetFront conn.toList = .halt (.returned true) headerSize := by
        rw [hconn]
        exact packetFront_end rfl rfl tail
      obtain ⟨conn', hpacket, -⟩ := handlePacket_of_halt cfg reply pos hfront
      refine .inr (.inr (.inl ⟨conn', hpacket, ?_, ?_⟩))
      · rw [List.length_append, PacketHeader.length_toBytes]
        exact Nat.le_add_right _ _
      · rw [drop_toBytes]
        exact htail

end Underway

/-! ## What the main thread sends -/

/-- The main thread has sent `bytes`; what it holds and what its server has taken stay. -/
structure Sends (me me' : PeerState) (bytes : List UInt8) : Prop where
  desktop : me'.desktop = me.desktop
  received : me'.received = me.received
  refusals : me'.st.sink.refusals = []
  taken : me'.st.sink.taken = me.st.sink.taken ++ bytes

/-- What is still to be sent are names. -/
def Named : UploadPhase → Prop
  | .sending files _ _ => ∃ names : List FileName, files = names.map FileName.units
  | _ => True

/-- What `CollectFiles` selects are files of the desktop. -/
theorem collected_named {cfg : IniState} {d : Desktop} {order : List FileName}
    {entries : List DirEntry}
    (h : collectFiles cfg.desktopPath cfg.lastSync (some (d.listing order)) = some entries) :
    ∃ names : List FileName, entries.map (fun e => e.file.name) = names.map FileName.units := by
  have hentries : ∀ e ∈ entries, e ∈ d.listing order := by
    rw [collectFiles] at h
    split at h
    · rw [← Option.some.inj h]
      simp
    · rw [← Option.some.inj h]
      exact fun e he => List.mem_of_mem_filter he
  clear h
  induction entries with
  | nil => exact ⟨[], rfl⟩
  | cons e entries ih =>
      obtain ⟨names, hnames⟩ := ih fun e' he' => hentries e' (List.mem_cons_of_mem e he')
      obtain ⟨name, -, hname⟩ := List.mem_filterMap.mp (hentries e List.mem_cons_self)
      obtain ⟨f, -, rfl⟩ := Option.map_eq_some_iff.mp hname
      exact ⟨name :: names, by rw [List.map_cons, hnames]; rfl⟩

theorem scan_sends {cfg : IniState} {me me' : PeerState} {order : List FileName} {now : UInt64}
    {pad : UInt16} (hopen : me.st.sink.refusals = [])
    (h : me.scan cfg order now pad = some me') :
    Sends me me' (helloHeader now pad).toBytes ∧ Named me'.phase := by
  simp only [PeerState.scan, Option.bind_eq_bind, Option.bind_eq_some_iff] at h
  obtain ⟨entries, hentries, total, -, h⟩ := h
  obtain ⟨-, h⟩ := Option.ite_none_right_eq_some.mp h
  rw [← Option.some.inj h]
  have hreported : (me.st.report ⟨.uploading, 0, total, ""⟩).sink.refusals = [] := hopen
  obtain ⟨-, htaken, hrefusals⟩ := sendHeader_open hreported (helloHeader now pad)
  exact ⟨⟨rfl, rfl, hrefusals, htaken⟩, collected_named hentries⟩

/-- The next file is read and sent. -/
theorem send_sends {md5 : Digest} {me me' : PeerState} {pad : UInt16}
    (hopen : me.st.sink.refusals = []) (hnamed : Named me.phase)
    (h : me.send md5 pad = some me') :
    ∃ (name : FileName) (names : List FileName) (total : UInt64) (k : ℕ) (content : List UInt8),
      me.phase = .sending (name.units :: names.map FileName.units) total k ∧
        me.desktop.data name = some content ∧
        Sends me me' (copyBytes md5 pad name content) ∧ Named me'.phase := by
  rw [PeerState.send] at h
  split at h
  · next file rest total k hphase =>
      rw [hphase] at hnamed
      obtain ⟨_ | ⟨name, names⟩, hnames⟩ := hnamed
      · cases hnames
      obtain ⟨rfl, rfl⟩ := List.cons.inj hnames
      split at h
      · next st' hpacket =>
          obtain ⟨content, hdata, hrefusals, htaken⟩ := sendFilePacket_access hopen hpacket
          rw [← Option.some.inj h]
          exact ⟨name, names, total, k, content, hphase, hdata, ⟨rfl, rfl, hrefusals, htaken⟩,
            names, rfl⟩
      · cases h
  · cases h

theorem finish_sends {me me' : PeerState} {pad : UInt16} (hopen : me.st.sink.refusals = [])
    (h : me.finish pad = some me') :
    Sends me me' (PacketHeader.toBytes { opcode := opcodeEnd, pad := pad }) ∧
      Named me'.phase := by
  rw [PeerState.finish] at h
  split at h
  · obtain ⟨-, h⟩ := Option.ite_none_right_eq_some.mp h
    rw [← Option.some.inj h]
    obtain ⟨-, htaken, hrefusals⟩ :=
      sendHeader_open hopen { opcode := opcodeEnd, pad := pad }
    exact ⟨⟨rfl, rfl, hrefusals, htaken⟩, trivial⟩
  · cases h

/-! ## One direction -/

/-- What `you` has not taken of what `me` has sent are the copies in flight. -/
structure Linked (md5 : Digest) (me you : PeerState) (flight : List Copy) : Prop where
  refusals : me.st.sink.refusals = []
  named : Named me.phase
  behind : you.received ≤ me.st.sink.taken.length
  underway : Underway md5 flight (me.st.sink.taken.drop you.received)

namespace Linked

variable {md5 : Digest} {me me' you you' : PeerState} {flight : List Copy}

/-- Desktops do not matter, and of the receiving peer only what it has taken. -/
theorem congr (h : Linked md5 me you flight) (hst : me'.st = me.st) (hnamed : Named me'.phase)
    (hreceived : you'.received = you.received) : Linked md5 me' you' flight where
  refusals := by rw [hst]; exact h.refusals
  named := hnamed
  behind := by rw [hst, hreceived]; exact h.behind
  underway := by rw [hst, hreceived]; exact h.underway

/-- The main thread sends behind what is under way. -/
theorem extend (h : Linked md5 me you flight) {more : List Copy} {bytes : List UInt8}
    (hsends : Sends me me' bytes) (hnamed : Named me'.phase) (hmore : Underway md5 more bytes) :
    Linked md5 me' you (flight ++ more) where
  refusals := hsends.refusals
  named := hnamed
  behind := by
    rw [hsends.taken, List.length_append]
    exact h.behind.trans (Nat.le_add_right _ _)
  underway := by
    rw [hsends.taken, List.drop_append_of_le_length h.behind]
    exact h.underway.append hmore

/-- The server takes `n` bytes. -/
theorem take (h : Linked md5 me you flight) {n : ℕ} {rest : List Copy}
    (hreceived : you'.received = you.received + n)
    (hn : n ≤ (me.st.sink.taken.drop you.received).length)
    (hrest : Underway md5 rest ((me.st.sink.taken.drop you.received).drop n)) :
    Linked md5 me you' rest where
  refusals := h.refusals
  named := h.named
  behind := by
    have hbehind := h.behind
    rw [List.length_drop] at hn
    rw [hreceived]
    omega
  underway := by
    rw [List.drop_drop] at hrest
    rw [hreceived]
    exact hrest

end Linked

end DesktopSync.Analysis
