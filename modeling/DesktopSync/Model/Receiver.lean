import DesktopSync.Computation.ChunkedSource
import DesktopSync.Computation.WindowsPath
import DesktopSync.Model.Packet

/-!
# The receiving side

`RecvAll`, `HandleIncoming` and `ServerRoutine` of `sync_dll.cpp`. A connection is a
`Source` of bytes: whatever the client sends, cut into pieces as the transport likes,
and then the loss of the connection. The file system answers each `std::ofstream` as
`disk` says; nothing in `HandleIncoming` looks at its answers, and the model records
them beside each write.
-/

set_option autoImplicit false

namespace DesktopSync.Model

open ChunkedSource

/-- The receiving end of a UDT socket. -/
abbrev Conn := Source UInt8

/-- `UDT::recv(s, buf, len, 0)`: the return value, the bytes stored, the socket after.
SOURCE: udt4/src/core.cpp:1122-1207 -/
def udtRecv (s : Conn) (len : ℤ) : ℤ × List UInt8 × Conn :=
  if len ≤ 0 then (0, [], s)
  else
    let (bytes, s') := s.read len.toNat
    (if bytes = [] then udtError else bytes.length, bytes, s')

/-- When a receive loop gives up: on an error and on a count of zero, and on no positive
count. -/
structure GiveUp where
  test : ℤ → Bool
  zero : test 0 = true
  error : test udtError = true
  pos : ∀ n : ℕ, 0 < n → test n = false

/-- A receive that is not given up on took a positive number of bytes. -/
theorem GiveUp.udtRecv_pos (g : GiveUp) {s : Conn} {len : ℤ}
    (h : ¬ g.test (udtRecv s len).1 = true) : 0 < (udtRecv s len).1.toNat := by
  by_cases hlen : len ≤ 0
  · rw [udtRecv, if_pos hlen] at h
    exact absurd g.zero h
  · rw [udtRecv, if_neg hlen] at h ⊢
    by_cases hnil : (s.read len.toNat).1 = []
    · simp only [hnil, if_true] at h
      exact absurd g.error h
    · simp only [if_neg hnil, Int.toNat_natCast]
      exact List.length_pos_iff.mpr hnil

/-- The loop `RecvAll` and the payload loop of `HandleIncoming` share: receive until
nothing is missing, or until `UDT::recv` returns something to give up on. It ends
because every receive it goes on after took at least one byte. -/
def recvLoop (g : GiveUp) (s : Conn) (missing : ℕ) : Option (List UInt8 × Conn) :=
  if missing = 0 then some ([], s)
  else
    let received := udtRecv s (toInt missing)
    if g.test received.1 = true then none
    else
      (recvLoop g received.2.2 (missing - received.1.toNat)).map fun (tail, s') =>
        (received.2.1 ++ tail, s')
termination_by missing
decreasing_by
  have := g.udtRecv_pos (by assumption)
  omega

/-- The test of `RecvAll`. -/
def recvAllGiveUp : GiveUp where
  test n := n == udtError || n == 0
  zero := rfl
  error := rfl
  pos n hn := by
    simp only [udtError, Bool.or_eq_false_iff, beq_eq_false_iff_ne]
    omega

/-- SOURCE: sync_dll.cpp:51-61 -/
def recvAll (s : Conn) (len : ℕ) : Option (List UInt8 × Conn) := recvLoop recvAllGiveUp s len

/-- The test of the payload loop. -/
def payloadGiveUp : GiveUp where
  test n := n ≤ 0
  zero := rfl
  error := rfl
  pos n hn := by
    simp only [decide_eq_false_iff_not]
    omega

/-- The loop that fills the payload vector.
SOURCE: sync_dll.cpp:181-188 -/
def recvPayload (s : Conn) (len : ℕ) : Option (List UInt8 × Conn) := recvLoop payloadGiveUp s len

/-- `std::vector<char>::max_size()` -/
def vectorMaxSize : ℕ := 2 ^ 63 - 1

/-- What the file system does with one `std::ofstream`: whether it opens the target and
whether it accepts the whole write. -/
structure StoreReply where
  opens : Bool
  accepts : Bool
  deriving DecidableEq

/-- A file `HandleIncoming` stores: open the target, write the data, close. None of the
three is checked. -/
structure FileWrite where
  fileName : WString
  target : WString
  data : List UInt8
  /-- Where the data begin in the session's byte stream. -/
  offset : ℕ
  reply : StoreReply
  deriving DecidableEq

/-- The target opened and the write succeeded. -/
def FileWrite.stored (w : FileWrite) : Bool := w.reply.opens && w.reply.accepts

/-- SOURCE: sync_dll.cpp:190-194 -/
def targetDirOf (cfg : IniState) : WString :=
  if cfg.targetDir = [] then cfg.desktopPath else cfg.targetDir

/-- What one pass of the packet loop does: return from the function, or go on after a
packet of `size` bytes. -/
inductive PacketStep where
  | done (result : CallResult) (s : Conn)
  | next (write : Option FileWrite) (size : ℕ) (s : Conn)

/-- The FILE branch of the packet loop, from the allocation of the path on; the packet
began at `pos`.
SOURCE: sync_dll.cpp:176-199 -/
def handleFile (cfg : IniState) (reply : StoreReply) (pos : ℕ) (hdr : PacketHeader) (s : Conn) :
    PacketStep :=
  match recvAll s hdr.pathLen.toNat with
  | none => .done (.returned false) s
  | some (utf8, s) =>
      let fileName := utf8ToWide utf8
      if vectorMaxSize < hdr.fileSize.toNat then .done .threw s
      else
        match recvPayload s hdr.fileSize.toNat with
        | none => .done (.returned false) s
        | some (data, s) =>
            .next
              (some
                { fileName := fileName
                  target := WindowsPath.join (targetDirOf cfg) fileName
                  data := data
                  offset := pos + headerSize + hdr.pathLen.toNat
                  reply := reply })
              (headerSize + hdr.pathLen.toNat + hdr.fileSize.toNat) s

/-- One pass of the packet loop.
SOURCE: sync_dll.cpp:169-199 -/
def handlePacket (cfg : IniState) (reply : StoreReply) (pos : ℕ) (s : Conn) : PacketStep :=
  match recvAll s headerSize with
  | none => .done (.returned false) s
  | some (buf, s) =>
      let hdr := PacketHeader.ofBytes buf
      if hdr.magic ≠ magicDSYC then .done (.returned false) s
      else if hdr.opcode = opcodeEnd then .done (.returned true) s
      else if hdr.opcode = opcodeHello then .next none headerSize s
      else if hdr.opcode = opcodeFile then handleFile cfg reply pos hdr s
      else .next none headerSize s

/-! ## What the two receive loops return -/

section RecvLoop

variable (g : GiveUp)

/-- Nothing missing, nothing received. -/
theorem recvLoop_zero (s : Conn) : recvLoop g s 0 = some ([], s) := by
  rw [recvLoop]
  rfl

/-- A receive that asks for nothing, or finds the stream ended, ends the loop. -/
theorem recvLoop_stop (s : Conn) (missing : ℕ) (hmissing : 0 < missing)
    (h : toInt missing ≤ 0 ∨ s.toList = []) : recvLoop g s missing = none := by
  have hgive : g.test (udtRecv s (toInt missing)).1 = true := by
    by_cases hlen : toInt missing ≤ 0
    · rw [udtRecv, if_pos hlen]
      exact g.zero
    · have hnil := (s.read_eq_nil_iff (toInt missing).toNat (by omega)).mpr (h.resolve_left hlen)
      rw [udtRecv, if_neg hlen]
      simp only [hnil, if_true]
      exact g.error
  rw [recvLoop, if_neg (by omega)]
  simp only [hgive, if_true]

/-- A receive that asks for something takes some bytes off the front of the stream, no
more than it asked for, and the loop goes on. -/
theorem recvLoop_pass (s : Conn) (missing : ℕ) (hpos : 0 < toInt missing) (hne : s.toList ≠ []) :
    ∃ bytes s', bytes ≠ [] ∧ bytes.length ≤ (toInt missing).toNat ∧
      bytes ++ s'.toList = s.toList ∧
      recvLoop g s missing =
        (recvLoop g s' (missing - bytes.length)).map fun (tail, s'') => (bytes ++ tail, s'') := by
  have hmissing : missing ≠ 0 := by
    rintro rfl
    exact absurd hpos (by decide)
  have hread : (s.read (toInt missing).toNat).1 ≠ [] := by
    rw [Ne, s.read_eq_nil_iff _ (by omega)]
    exact hne
  refine ⟨(s.read (toInt missing).toNat).1, (s.read (toInt missing).toNat).2, hread,
    s.length_read_le _, s.read_append _, ?_⟩
  have hrecv : udtRecv s (toInt missing) =
      (((s.read (toInt missing).toNat).1.length : ℤ), (s.read (toInt missing).toNat).1,
        (s.read (toInt missing).toNat).2) := by
    rw [udtRecv, if_neg (not_le.mpr hpos)]
    simp only [if_neg hread]
  rw [recvLoop, if_neg hmissing]
  simp only [hrecv, g.pos _ (List.length_pos_iff.mpr hread), Bool.false_eq_true, if_false,
    Int.toNat_natCast]

/-- A length that fits an `int` is received whenever the stream holds that much. -/
theorem recvLoop_some (s : Conn) (missing : ℕ) (hint : missing < 2 ^ 31)
    (hlen : missing ≤ s.toList.length) :
    ∃ s', recvLoop g s missing = some (s.toList.take missing, s') ∧
      s'.toList = s.toList.drop missing := by
  induction missing using Nat.strong_induction_on generalizing s with
  | _ missing ih =>
      rcases Nat.eq_zero_or_pos missing with rfl | hpos
      · exact ⟨s, by rw [recvLoop_zero, List.take_zero], by rw [List.drop_zero]⟩
      · have hcast := toInt_eq_self hint
        obtain ⟨bytes, s', hne, hle, happ, hloop⟩ := recvLoop_pass g s missing (by omega)
          (List.ne_nil_of_length_pos (by omega))
        have hbytes := List.length_pos_iff.mpr hne
        rw [hcast, Int.toNat_natCast] at hle
        have hlens : s.toList.length = bytes.length + s'.toList.length := by
          rw [← happ, List.length_append]
        obtain ⟨s'', hrest, hdrop⟩ :=
          ih (missing - bytes.length) (by omega) s' (by omega) (by omega)
        refine ⟨s'', ?_, ?_⟩
        · rw [hloop, hrest, Option.map_some, ← happ, List.take_append, List.take_of_length_le hle]
        · rw [hdrop, ← happ, List.drop_append, List.drop_of_length_le hle, List.nil_append]

/-- A stream too short ends the loop without a result. -/
theorem recvLoop_none_of_short (s : Conn) (missing : ℕ) (hlen : s.toList.length < missing) :
    recvLoop g s missing = none := by
  induction missing using Nat.strong_induction_on generalizing s with
  | _ missing ih =>
      by_cases hstuck : toInt missing ≤ 0 ∨ s.toList = []
      · exact recvLoop_stop g s missing (by omega) hstuck
      · push Not at hstuck
        obtain ⟨bytes, s', hne, hle, happ, hloop⟩ := recvLoop_pass g s missing hstuck.1 hstuck.2
        have hbytes := List.length_pos_iff.mpr hne
        have hlens : s.toList.length = bytes.length + s'.toList.length := by
          rw [← happ, List.length_append]
        rw [hloop, ih (missing - bytes.length) (by omega) s' (by omega), Option.map_none]

/-- A length from `2^31` on is never received: each request is at most the length modulo
`2^32`, so what is missing stays at least `2^31` until a cast is not positive. -/
theorem recvLoop_none_of_large (s : Conn) (missing : ℕ) (hlarge : 2 ^ 31 ≤ missing) :
    recvLoop g s missing = none := by
  induction missing using Nat.strong_induction_on generalizing s with
  | _ missing ih =>
      by_cases hstuck : toInt missing ≤ 0 ∨ s.toList = []
      · exact recvLoop_stop g s missing (by omega) hstuck
      · push Not at hstuck
        obtain ⟨bytes, s', hne, hle, happ, hloop⟩ := recvLoop_pass g s missing hstuck.1 hstuck.2
        have hbytes := List.length_pos_iff.mpr hne
        obtain ⟨hmod, hlow⟩ := toInt_pos hstuck.1
        rw [hmod] at hle
        rw [hloop, ih (missing - bytes.length) (by omega) s' (by omega), Option.map_none]

/-- The loop receives exactly the lengths that fit an `int` and the stream. -/
theorem recvLoop_eq_some {s s' : Conn} {missing : ℕ} {bytes : List UInt8}
    (h : recvLoop g s missing = some (bytes, s')) :
    missing < 2 ^ 31 ∧ missing ≤ s.toList.length ∧ bytes = s.toList.take missing ∧
      s'.toList = s.toList.drop missing := by
  have hint : missing < 2 ^ 31 := by
    by_contra hlarge
    rw [recvLoop_none_of_large g s missing (by omega)] at h
    cases h
  have hlen : missing ≤ s.toList.length := by
    by_contra hshort
    rw [recvLoop_none_of_short g s missing (by omega)] at h
    cases h
  obtain ⟨s'', hsome, hdrop⟩ := recvLoop_some g s missing hint hlen
  rw [hsome, Option.some.injEq, Prod.mk.injEq] at h
  obtain ⟨rfl, rfl⟩ := h
  exact ⟨hint, hlen, rfl, hdrop⟩

end RecvLoop

/-! ## The packet loop -/

/-- A packet the loop goes on after was taken off the front of the stream. -/
theorem handlePacket_next {cfg : IniState} {reply : StoreReply} {pos size : ℕ} {s s' : Conn}
    {write : Option FileWrite} (h : handlePacket cfg reply pos s = .next write size s') :
    0 < size ∧ size ≤ s.toList.length ∧ s'.toList = s.toList.drop size := by
  unfold handlePacket at h
  cases hhdr : recvAll s headerSize with
  | none => simp [hhdr] at h
  | some received =>
      obtain ⟨buf, s₁⟩ := received
      obtain ⟨-, hlen, -, hdrop⟩ := recvLoop_eq_some recvAllGiveUp hhdr
      have hhello : ∀ w : Option FileWrite, PacketStep.next w headerSize s₁ =
          .next write size s' → 0 < size ∧ size ≤ s.toList.length ∧
            s'.toList = s.toList.drop size := by
        rintro w ⟨⟩
        exact ⟨by decide, hlen, hdrop⟩
      simp only [hhdr] at h
      split at h
      · cases h
      split at h
      · cases h
      split at h
      · exact hhello _ h
      split at h
      · unfold handleFile at h
        cases hpath : recvAll s₁ (PacketHeader.ofBytes buf).pathLen.toNat with
        | none => simp [hpath] at h
        | some received =>
            obtain ⟨utf8, s₂⟩ := received
            obtain ⟨-, hlen₁, -, hdrop₁⟩ := recvLoop_eq_some recvAllGiveUp hpath
            simp only [hpath] at h
            split at h
            · cases h
            cases hdata : recvPayload s₂ (PacketHeader.ofBytes buf).fileSize.toNat with
            | none => simp [hdata] at h
            | some received =>
                obtain ⟨data, s₃⟩ := received
                obtain ⟨-, hlen₂, -, hdrop₂⟩ :=
                  recvLoop_eq_some payloadGiveUp hdata
                simp only [hdata, PacketStep.next.injEq] at h
                obtain ⟨-, rfl, rfl⟩ := h
                rw [hdrop₁, List.length_drop, hdrop, List.length_drop] at hlen₂
                rw [hdrop, List.length_drop] at hlen₁
                have hsize : 0 < headerSize := by decide
                refine ⟨by omega, by omega, ?_⟩
                rw [hdrop₂, hdrop₁, hdrop, List.drop_drop, List.drop_drop, Nat.add_assoc]
      · exact hhello _ h

/-- What one session of `HandleIncoming` does: how it ends, the files it stores in order,
and the connection it leaves. -/
structure Session where
  result : CallResult
  writes : List FileWrite
  rest : Conn

/-- The packet loop, once `stored` files have been stored and `pos` bytes received. -/
def handleLoop (cfg : IniState) (disk : ℕ → StoreReply) (stored pos : ℕ) (s : Conn) : Session :=
  match _ : handlePacket cfg (disk stored) pos s with
  | .done result s' => ⟨result, [], s'⟩
  | .next write size s' =>
      let tail := handleLoop cfg disk (stored + write.toList.length) (pos + size) s'
      ⟨tail.result, write.toList ++ tail.writes, tail.rest⟩
termination_by s.toList.length
decreasing_by
  obtain ⟨hpos, hlen, hdrop⟩ := handlePacket_next ‹_›
  rw [hdrop, List.length_drop]
  omega

/-- SOURCE: sync_dll.cpp:164-201 -/
def handleIncoming (cfg : IniState) (disk : ℕ → StoreReply) (s : Conn) : Session :=
  handleLoop cfg disk 0 0 s

/-- A session served by `ServerRoutine`: how `HandleIncoming` ended, and the tray
reports. An exception leaves the thread, so nothing is reported after it. -/
structure Served where
  result : CallResult
  reports : List TrayReport

/-- SOURCE: sync_dll.cpp:223-226 -/
def serveClient (cfg : IniState) (disk : ℕ → StoreReply) (s : Conn) : Served :=
  let session := handleIncoming cfg disk s
  { result := session.result
    reports := ⟨.downloading, 0, 0, ""⟩ ::
      (if session.result = .threw then [] else [⟨.completed, 0, 0, ""⟩]) }

end DesktopSync.Model
