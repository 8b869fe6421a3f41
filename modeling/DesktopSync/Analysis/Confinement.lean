import DesktopSync.Analysis.Fragmentation

/-!
# Where received files are written

`HandleIncoming` joins the decoded name to the target directory and looks at it no
further, so a write lands directly in the target directory exactly when the join of its
name does. `WindowsPath.StaysIn` says for which names that is. The sender only ever sends
`path.filename()`, which is such a name.
-/

set_option autoImplicit false

namespace DesktopSync.Analysis

open DesktopSync.Model
open Framing

theorem writesOf_targets_iff (cfg : IniState) (disk : ℕ → StoreReply) (stored : ℕ)
    (items : List (ℕ × FilePacket)) :
    (∀ w ∈ writesOf cfg disk stored items, WindowsPath.Direct (targetDirOf cfg) w.target) ↔
      ∀ x ∈ items, WindowsPath.StaysIn (targetDirOf cfg) (utf8ToWide x.2.path) := by
  induction items generalizing stored with
  | nil => simp [writesOf]
  | cons x items ih =>
      obtain ⟨pos, p⟩ := x
      rw [writesOf, List.forall_mem_cons, List.forall_mem_cons, ih]
      apply and_congr_left
      intro _
      exact WindowsPath.direct_join_iff (targetDirOf cfg) (utf8ToWide p.path)

/-- Every file a session opens is a direct child of the target directory if and only if
the name of every FILE packet in the stream stays in that directory. -/
theorem handleIncoming_confined_iff (cfg : IniState) (disk : ℕ → StoreReply) (c : Conn) :
    (∀ w ∈ (handleIncoming cfg disk c).writes,
        WindowsPath.Direct (targetDirOf cfg) w.target) ↔
      ∀ x ∈ filePackets c.toList,
        WindowsPath.StaysIn (targetDirOf cfg) (utf8ToWide x.2.path) := by
  rw [handleIncoming_writes]
  exact writesOf_targets_iff cfg disk 0 (filePackets c.toList)

/-- A FILE packet with the name `..\x` and one byte of content. -/
def climbingPacket : FilePacket where
  header := { opcode := opcodeFile, pathLen := 4, fileSize := 1, pad := 0 }
  path := [0x2E, 0x2E, 0x5C, 0x78]
  data := [7]

/-- The name `..\x` is joined as it is: the session writes outside the directory. -/
theorem handleIncoming_escapes :
    ¬∀ (cfg : IniState) (disk : ℕ → StoreReply) (c : Conn),
      ∀ w ∈ (handleIncoming cfg disk c).writes,
        WindowsPath.Direct (targetDirOf cfg) w.target := by
  intro h
  have hparse := parse_file (p := climbingPacket) rfl rfl rfl (by decide) rfl (by decide) 0 []
  have hdirect := h sampleCfg steadyDisk (.whole (climbingPacket.header.toBytes ++
    climbingPacket.path ++ climbingPacket.data ++ []))
  rw [handleIncoming_writes, ChunkedSource.Source.toList_whole, writesOf_targets_iff, filePackets,
    hparse] at hdirect
  have hname := hdirect (0, climbingPacket) List.mem_cons_self
  have hpath : utf8ToWide climbingPacket.path = [0x2E, 0x2E, 0x5C, 0x78] := by decide
  have hdir : targetDirOf sampleCfg = [0x43, 0x3A, 0x5C, 0x44] := by decide
  simp only [hpath, hdir] at hname
  exact absurd hname (by decide +kernel)

end DesktopSync.Analysis
