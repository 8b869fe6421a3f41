import DesktopSync.Analysis.Fragmentation
import DesktopSync.Model.Desktop

/-!
# Which files an incremental upload selects

`CollectFiles` compares the seconds of the file clock, which counts from 1601, with
`lastSync`, which counts from 1970. On one time line the filter therefore tests against an
instant 369 years too early, and it selects what a filter on one clock would select exactly
for the files written outside the gap.
-/

set_option autoImplicit false

namespace DesktopSync.Analysis

open DesktopSync.Model

/-! ## Instants on one time line -/

/-- The range of the two clocks, which both count 100 ns in 64 bits. -/
def Ticks (t : ℤ) : Prop := -2 ^ 63 ≤ t ∧ t < 2 ^ 63

instance decidableTicks (t : ℤ) : Decidable (Ticks t) := inferInstanceAs (Decidable (_ ∧ _))

/-- The Unix second that a `lastSync` taken at `clock` denotes. -/
def syncSecond (clock : ℤ) : ℤ := (clock - unixEpoch * ticksPerSecond).tdiv ticksPerSecond

/-- The Unix second in which an instant of the file clock lies. -/
def unixSecond (ticks : ℤ) : ℤ := (ticks - unixEpoch * ticksPerSecond) / ticksPerSecond

/-- A regular file whose last write is later than the instant of the last
synchronisation. -/
def writtenAfter (second : ℤ) (e : DirEntry) : Bool :=
  e.regular && decide (second < unixSecond e.lastWriteTime)

/-- The write times on which the filter errs. It takes what was written from `second`
seconds after 1601 on, and what was written before 1601; what is later than the instant
begins `second` seconds after 1970. The second branch is for a clock before 1970, whose
seconds are negative and cast to large numbers. -/
def Misjudged (second ticks : ℤ) : Prop :=
  0 ≤ second ∧ (ticks ≤ -ticksPerSecond ∨
      (second + 1) * ticksPerSecond ≤ ticks ∧
        ticks < (second + 1 + unixEpoch) * ticksPerSecond) ∨
    second < 0 ∧ ¬(second * ticksPerSecond < ticks ∧ ticks ≤ -ticksPerSecond ↔
      (second + 1 + unixEpoch) * ticksPerSecond ≤ ticks)

instance decidableMisjudged (second ticks : ℤ) : Decidable (Misjudged second ticks) :=
  inferInstanceAs (Decidable (_ ∨ _))

/-- How two casts of signed seconds compare. -/
theorem ofInt_lt_ofInt_iff {s x : ℤ} (hs : Ticks s) (hx : Ticks x) :
    UInt64.ofInt s < UInt64.ofInt x ↔
      if 0 ≤ s then x < 0 ∨ s < x else s < x ∧ x < 0 := by
  unfold Ticks at hs hx
  rw [UInt64.lt_iff_toNat_lt, toNat_ofInt_eq, toNat_ofInt_eq]
  split
  · omega
  · omega

/-- The seconds of an instant of the file clock, truncated towards 1601. -/
theorem tdiv_ticksPerSecond (t : ℤ) :
    t.tdiv ticksPerSecond = if 0 ≤ t then t / ticksPerSecond else -(-t / ticksPerSecond) := by
  split
  · exact Int.tdiv_eq_ediv_of_nonneg ‹_›
  · rw [← Int.tdiv_eq_ediv_of_nonneg (by omega), Int.neg_tdiv, neg_neg]

/-- The filter takes a write time that is later than the instant, and no other, unless it
is one of those it misjudges. -/
theorem selected_iff_later_iff {clock ticks : ℤ}
    (hclock : Ticks (clock - unixEpoch * ticksPerSecond)) (hticks : Ticks ticks) :
    ((nowSec clock < UInt64.ofInt (ticks.tdiv ticksPerSecond)) ↔
        syncSecond clock < unixSecond ticks) ↔
      ¬Misjudged (syncSecond clock) ticks := by
  have hsecond : Ticks (syncSecond clock) := by
    unfold syncSecond
    rw [tdiv_ticksPerSecond]
    unfold Ticks ticksPerSecond at *
    split <;> omega
  have hwritten : Ticks (ticks.tdiv ticksPerSecond) := by
    rw [tdiv_ticksPerSecond]
    unfold Ticks ticksPerSecond at *
    split <;> omega
  have hlater : syncSecond clock < unixSecond ticks ↔
      (syncSecond clock + 1 + unixEpoch) * ticksPerSecond ≤ ticks := by
    unfold unixSecond unixEpoch ticksPerSecond
    omega
  rw [show nowSec clock = UInt64.ofInt (syncSecond clock) from rfl,
    ofInt_lt_ofInt_iff hsecond hwritten, hlater, Misjudged, tdiv_ticksPerSecond]
  unfold unixEpoch ticksPerSecond
  split <;> split <;> omega

/-! ## The filter -/

/-- `CollectFiles` returns each regular file that was written later than the instant of
`lastSync`, once, and nothing else, if and only if no regular file was written at a time the
filter misjudges. -/
theorem collectFiles_exact_iff (root : WString) (hroot : root ≠ []) (entries : List DirEntry)
    (hentries : ∀ e ∈ entries, Ticks e.lastWriteTime) (clock : ℤ)
    (hclock : Ticks (clock - unixEpoch * ticksPerSecond)) (hsync : nowSec clock ≠ 0) :
    collectFiles root (nowSec clock) (some entries) =
        some (entries.filter (writtenAfter (syncSecond clock))) ↔
      ∀ e ∈ entries, e.regular = true → ¬Misjudged (syncSecond clock) e.lastWriteTime := by
  have hcollected : ∀ e ∈ entries, (e.collected (nowSec clock) = writtenAfter (syncSecond clock) e ↔
      (e.regular = true → ¬Misjudged (syncSecond clock) e.lastWriteTime)) := by
    intro e he
    rw [← selected_iff_later_iff hclock (hentries e he)]
    unfold DirEntry.collected writtenAfter
    have hzero : (nowSec clock == 0) = false := by simpa using hsync
    rw [hzero, Bool.false_or]
    cases e.regular with
    | false => simp
    | true => simp only [Bool.true_and, decide_eq_decide, true_implies]
  rw [collectFiles, if_neg hroot, Option.map_some, Option.some.injEq]
  constructor
  · intro hfilter e he
    rw [← hcollected e he, Bool.eq_iff_iff]
    have hmem : ∀ p : DirEntry → Bool, p e = true ↔ e ∈ entries.filter p := by
      intro p
      rw [List.mem_filter, and_iff_right he]
    rw [hmem (DirEntry.collected (nowSec clock)), hmem (writtenAfter (syncSecond clock)), hfilter]
  · intro hclean
    apply List.filter_congr
    intro e he
    exact (hcollected e he).mpr (hclean e he)

/-- A file last written at `ticks`. -/
def writtenAt (ticks : ℤ) : DirEntry where
  file := .gone (wide "a")
  regular := true
  lastWriteTime := ticks
  listedSize := some 0

/-- A clock in the year 2023. -/
def clock2023 : ℤ := (unixEpoch + 1700000000) * ticksPerSecond

/-- A file written two seconds after the synchronisation. -/
theorem collectFiles_exact_after :
    collectFiles (wide "C:\\D") (nowSec clock2023)
        (some [writtenAt (clock2023 + 2 * ticksPerSecond)]) =
      some ([writtenAt (clock2023 + 2 * ticksPerSecond)].filter
        (writtenAfter (syncSecond clock2023))) := by
  apply (collectFiles_exact_iff _ (by decide) _ ?_ clock2023 (by decide) (by decide)).mpr
  · intro e he _
    rw [List.mem_singleton.mp he]
    decide
  · intro e he
    rw [List.mem_singleton.mp he]
    decide

/-- A file written an hour before the synchronisation is selected. -/
theorem collectFiles_inexact :
    ¬∀ (root : WString) (entries : List DirEntry) (clock : ℤ), root ≠ [] →
      (∀ e ∈ entries, Ticks e.lastWriteTime) → Ticks (clock - unixEpoch * ticksPerSecond) →
      nowSec clock ≠ 0 →
        collectFiles root (nowSec clock) (some entries) =
          some (entries.filter (writtenAfter (syncSecond clock))) := by
  intro h
  have hcollect := h (wide "C:\\D") [writtenAt (clock2023 - 3600 * ticksPerSecond)] clock2023
    (by decide) (by
      intro e he
      rw [List.mem_singleton.mp he]
      decide) (by decide) (by decide)
  have hselected : (writtenAt (clock2023 - 3600 * ticksPerSecond)).collected (nowSec clock2023) =
      true := by decide
  have hearlier : writtenAfter (syncSecond clock2023)
      (writtenAt (clock2023 - 3600 * ticksPerSecond)) = false := by decide
  rw [collectFiles, if_neg (by decide), Option.map_some, List.filter_cons_of_pos hselected,
    List.filter_cons_of_neg (by rw [hearlier]; exact Bool.false_ne_true)] at hcollect
  cases hcollect

end DesktopSync.Analysis
