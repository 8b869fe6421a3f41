import DesktopSync.Model.Sender

/-!
# A file that changes while it is sent

`SendFilePacket` looks at a file three times: `file_size`, the reads of `ComputeMd5`, the
reads of its own loop. Between any two of these another program may rewrite, grow or
shrink the file. `LiveFile` has the content each of them finds, and `sendLiveFile` is
`SendFilePacket` over such a file. A file that grows as fast as it is read keeps a loop
going for ever, so the loops have fuel.
-/

set_option autoImplicit false

namespace DesktopSync.Model

structure LiveFile where
  /-- `path.filename()` -/
  name : WString
  /-- `std::filesystem::file_size(path)`; `none` where it throws. -/
  size : Option UInt64
  /-- `ComputeMd5` can open the file. -/
  hashOpens : Bool
  /-- The content the `k`-th read of `ComputeMd5` finds. -/
  hashed : ℕ → List UInt8
  /-- `SendFilePacket` can open the file. -/
  sendOpens : Bool
  /-- The content the `k`-th read of the send loop finds. -/
  streamed : ℕ → List UInt8

/-- What `ifs.read(buf, sizeof(buf))` takes from the file at its `k`-th call. -/
def readBlock (contents : ℕ → List UInt8) (k : ℕ) : List UInt8 :=
  ((contents k).drop (k * blockSize)).take blockSize

/-- Everything a read loop takes from its `k`-th call on, if a short read ends it in time.
SOURCE: sync_dll.cpp:82-90, 144-153 -/
def readBlocks (contents : ℕ → List UInt8) : ℕ → ℕ → Option (List UInt8)
  | 0, _ => none
  | fuel + 1, k =>
      let block := readBlock contents k
      if block.length < blockSize then some block
      else (readBlocks contents fuel (k + 1)).map (block ++ ·)

/-- The bytes a stream yields: `none` where the loop does not end in time, `some none` where
the file does not open. -/
def readAll (opens : Bool) (contents : ℕ → List UInt8) (fuel : ℕ) : Option (Option (List UInt8)) :=
  if opens then (readBlocks contents fuel 0).map some else some none

/-- The payload loop, each of whose reads finds the file as it is then.
SOURCE: sync_dll.cpp:141-153 -/
def sendLivePayload (total : UInt64) (contents : ℕ → List UInt8) :
    ℕ → ℕ → SendState → Option (Bool × SendState)
  | 0, _, _ => none
  | fuel + 1, k, st =>
      let block := readBlock contents k
      if block = [] then some (true, st)
      else
        let sent := st.send block
        if sent.1 then
          let st' := { sent.2 with sent := sent.2.sent + UInt64.ofNat block.length }
          let st'' := st'.report ⟨.uploading, st'.sent, total, ""⟩
          if block.length < blockSize then some (true, st'')
          else sendLivePayload total contents fuel (k + 1) st''
        else some (false, sent.2)

/-- `SendFilePacket` of a live file; `none` where one of its loops does not end in time.
SOURCE: sync_dll.cpp:121-155 -/
def sendLiveFile (md5 : Digest) (type : ChangeType) (total : UInt64) (pad : UInt16) (fuel : ℕ)
    (st : SendState) (f : LiveFile) : Option (CallResult × SendState) :=
  let utf8 := wideToUtf8 f.name
  if maxPathBytes < utf8.length then some (.returned false, st)
  else
    match f.size with
    | none => some (.threw, st)
    | some size => do
        let hashed ← readAll f.hashOpens f.hashed fuel
        match st.sendHeader (fileHeader md5 type pad ⟨f.name, some size, hashed, none⟩ size) with
        | (false, st) => some (.returned false, st)
        | (true, st) =>
            match st.send utf8 with
            | (false, st) => some (.returned false, st)
            | (true, st) =>
                if f.sendOpens then
                  let payload ← sendLivePayload total f.streamed fuel 0 st
                  some (.returned payload.1, payload.2)
                else some (.returned false, st)

/-- What the accesses yield, if both loops end in time. -/
def LiveFile.access (f : LiveFile) (fuel : ℕ) : Option FileAccess := do
  let hashed ← readAll f.hashOpens f.hashed fuel
  let streamed ← readAll f.sendOpens f.streamed fuel
  some ⟨f.name, f.size, hashed, streamed⟩

/-! ## A live file is sent as what its accesses yield -/

theorem length_readBlock_le (contents : ℕ → List UInt8) (k : ℕ) :
    (readBlock contents k).length ≤ blockSize := by
  unfold readBlock
  exact List.length_take_le _ _

/-- The loop over the live file sends what its reads yield. -/
theorem sendLivePayload_of_read (total : UInt64) {contents : ℕ → List UInt8} {fuel k : ℕ}
    {data : List UInt8} (h : readBlocks contents fuel k = some data) (st : SendState) :
    sendLivePayload total contents fuel k st = some (sendPayload total st data) := by
  induction fuel generalizing k data st with
  | zero => cases h
  | succ fuel ih =>
      have hle := length_readBlock_le contents k
      unfold readBlocks at h
      unfold sendLivePayload
      rw [sendPayload]
      simp only at h ⊢
      by_cases hshort : (readBlock contents k).length < blockSize
      · rw [if_pos hshort] at h
        have htake : data.take blockSize = readBlock contents k := by
          rw [← Option.some.inj h]
          exact List.take_of_length_le hle
        rw [htake]
        simp only [if_pos hshort]
        split_ifs <;> rfl
      · rw [if_neg hshort] at h
        obtain ⟨rest, hrest, rfl⟩ := Option.map_eq_some_iff.mp h
        have hfull : (readBlock contents k).length = blockSize := by omega
        have htake : (readBlock contents k ++ rest).take blockSize = readBlock contents k :=
          List.take_left' hfull
        have hdrop : (readBlock contents k ++ rest).drop blockSize = rest :=
          List.drop_left' hfull
        rw [htake, hdrop]
        simp only [if_neg hshort]
        split_ifs
        · rfl
        · exact ih hrest _
        · rfl

/-- A loop over a live file that succeeds has read to an end. -/
theorem read_of_sendLivePayload {total : UInt64} {contents : ℕ → List UInt8} {fuel k : ℕ}
    {st st' : SendState} (h : sendLivePayload total contents fuel k st = some (true, st')) :
    ∃ data, readBlocks contents fuel k = some data := by
  induction fuel generalizing k st with
  | zero => cases h
  | succ fuel ih =>
      unfold sendLivePayload at h
      unfold readBlocks
      simp only at h ⊢
      by_cases hshort : (readBlock contents k).length < blockSize
      · rw [if_pos hshort]
        exact ⟨_, rfl⟩
      · rw [if_neg hshort]
        have hne : readBlock contents k ≠ [] := by
          intro hnil
          rw [hnil] at hshort
          exact hshort (by decide)
        simp only [if_neg hne, if_neg hshort] at h
        split_ifs at h
        · obtain ⟨rest, hrest⟩ := ih h
          exact ⟨_, by rw [hrest]; rfl⟩
        · cases Option.some.inj h

end DesktopSync.Model
