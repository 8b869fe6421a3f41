import DesktopSync.Model.Config

/-!
# The default grid on the screen

`ComputeDefaultLayout` sets the near corner two grid steps before the far one, and
`FillCellsFromRect` fills three cells from there on. So the last column begins ten pixels
before the edge of the screen and is as wide as a cell: it fits only where a cell has
hardly more than ten pixels, whatever is gained by cutting the fractions off.
-/

set_option autoImplicit false

namespace DesktopSync.Analysis

open DesktopSync.Model

/-! ## Cells on a screen -/

/-- One of the two ends, on one of the axes, before the other begins. -/
def Apart (r s : Rect) : Prop :=
  r.right ≤ s.left ∨ s.right ≤ r.left ∨ r.bottom ≤ s.top ∨ s.bottom ≤ r.top

/-- The nine cells are on the screen and do not overlap. -/
structure FitsScreen (width height : Int32) (cells : Fin 3 → Fin 3 → Rect) : Prop where
  solid : ∀ j i, (cells j i).left < (cells j i).right ∧ (cells j i).top < (cells j i).bottom
  apart : ∀ j i j' i', (j, i) ≠ (j', i') → Apart (cells j i) (cells j' i')
  inside : ∀ j i, (0 ≤ (cells j i).left ∧ (cells j i).right ≤ width) ∧
    0 ≤ (cells j i).top ∧ (cells j i).bottom ≤ height

/-! ## One axis -/

/-- Where the cells of the default layout begin on a side of the screen that is divided
into `d`. -/
def nearEdge (size : Int32) (d : ℕ) (i : Fin 3) : Int32 :=
  castInt ((castInt ((size - 10).toInt - (size.toInt / d : ℚ) * 2)).toInt +
    i.val * (size.toInt / d : ℚ))

/-- Where they end. -/
def farEdge (size : Int32) (d : ℕ) (i : Fin 3) : Int32 :=
  nearEdge size d i + castInt (size.toInt / d)

/-- Three cells on one side of the screen, one behind the other. -/
structure FitsSide (size : Int32) (near far : Fin 3 → Int32) : Prop where
  solid : ∀ i, near i < far i
  ordered : ∀ i i', i < i' → far i ≤ near i'
  inside : ∀ i, 0 ≤ near i ∧ far i ≤ size

theorem cells_default (m : Machine) (layout : DesktopLayout) (j i : Fin 3) :
    (computeDefaultLayout m layout).cells j i =
      ⟨nearEdge m.screenW 15 i, nearEdge m.screenH 12 j, farEdge m.screenW 15 i,
        farEdge m.screenH 12 j⟩ := by
  simp only [computeDefaultLayout, fillCellsFromRect, farEdge, nearEdge, Nat.cast_ofNat]

/-- A fraction that is not negative is cast by the division of its parts. -/
theorem toInt_castInt_div {n : ℤ} {d : ℕ} (hn : 0 ≤ n) (hlt : n / d < 2 ^ 31) :
    (castInt ((n : ℚ) / d)).toInt = n / d := by
  have hnonneg : ¬(n : ℚ) / d < 0 :=
    not_lt.mpr (div_nonneg (Int.cast_nonneg hn) (Nat.cast_nonneg d))
  have hquotient : 0 ≤ n / d := Int.ediv_nonneg hn (Int.natCast_nonneg d)
  unfold castInt
  simp only [if_neg hnonneg, Rat.floor_intCast_div_natCast]
  rw [if_pos ⟨by omega, hlt⟩, Int32.toInt_ofInt_of_le (by omega) hlt]

/-- A sum of two edges runs over into the negative numbers, if at all. -/
theorem toInt_add_of_nonneg {a b : Int32} (ha : 0 ≤ a.toInt) (hb : 0 ≤ b.toInt) :
    (a + b).toInt =
      if a.toInt + b.toInt < 2 ^ 31 then a.toInt + b.toInt else a.toInt + b.toInt - 2 ^ 32 := by
  have ha' := a.toInt_lt
  have hb' := b.toInt_lt
  rw [Int32.toInt_add, Int.bmod_def]
  split <;> split <;> omega

section Side

variable {size : Int32} {d : ℕ} (hd : 2 < d) (hsize : 10 * (d : ℤ) ≤ (d - 2) * size.toInt)
include hd hsize

theorem ten_lt_size : 10 < size.toInt := by
  by_contra hle
  have hlt : (d - 2 : ℤ) * size.toInt < 10 * d := by nlinarith
  omega

/-- The near corner, two grid steps before the far one. -/
theorem toInt_corner :
    (castInt ((size - 10).toInt - (size.toInt / d : ℚ) * 2)).toInt =
      ((d - 2) * size.toInt - 10 * d) / d := by
  have hlt := size.toInt_lt
  have hten := ten_lt_size hd hsize
  have hd' : (d : ℚ) ≠ 0 := by positivity
  have hten' : (10 : Int32).toInt = 10 := by decide
  have hsub : (size - 10).toInt = size.toInt - 10 := by
    rw [Int32.toInt_sub, hten']
    exact Int.bmod_eq_of_le (by omega) (by omega)
  have hquotient : ((size - 10).toInt : ℚ) - (size.toInt / d : ℚ) * 2 =
      (((d - 2) * size.toInt - 10 * d : ℤ) : ℚ) / d := by
    rw [hsub, eq_div_iff hd']
    push_cast
    field_simp
    ring
  have hle : ((d - 2) * size.toInt - 10 * d) / d ≤ size.toInt :=
    Int.ediv_le_of_le_mul (by omega) (by nlinarith)
  rw [hquotient]
  exact toInt_castInt_div (by omega) (by omega)

/-- A cell begins as many grid steps behind the corner as its number says. -/
theorem toInt_nearEdge (i : Fin 3) :
    (nearEdge size d i).toInt =
      ((d - 2) * size.toInt - 10 * d) / d + i.val * size.toInt / d := by
  have hlt := size.toInt_lt
  have hten := ten_lt_size hd hsize
  have hpos : (0 : ℤ) < d := by omega
  have hd' : (d : ℚ) ≠ 0 := by positivity
  unfold nearEdge
  rw [toInt_corner hd hsize]
  generalize hcorner : ((d - 2) * size.toInt - 10 * d) / d = corner
  have hcorner0 : 0 ≤ corner := by
    rw [← hcorner]
    exact Int.ediv_nonneg (by omega) (by omega)
  have hcornerle : corner * d ≤ (d - 2) * size.toInt - 10 * d := by
    rw [← hcorner]
    exact Int.ediv_mul_le _ (by omega)
  have hi : (i.val : ℤ) * size.toInt ≤ 2 * size.toInt := by
    have hi' := i.isLt
    nlinarith
  have hi0 : 0 ≤ (i.val : ℤ) * size.toInt := by positivity
  have hquotient : (corner : ℚ) + i.val * (size.toInt / d : ℚ) =
      ((corner * d + i.val * size.toInt : ℤ) : ℚ) / d := by
    rw [eq_div_iff hd']
    push_cast
    field_simp
  have hle : (corner * d + i.val * size.toInt) / d ≤ size.toInt :=
    Int.ediv_le_of_le_mul hpos (by nlinarith)
  rw [hquotient, toInt_castInt_div (by positivity) (by omega), Int.add_comm (corner * d),
    Int.add_mul_ediv_right _ _ (by omega), Int.add_comm]

theorem toInt_farEdge (i : Fin 3) :
    (farEdge size d i).toInt =
      if (nearEdge size d i).toInt + size.toInt / d < 2 ^ 31 then
        (nearEdge size d i).toInt + size.toInt / d
      else (nearEdge size d i).toInt + size.toInt / d - 2 ^ 32 := by
  have hlt := size.toInt_lt
  have hten := ten_lt_size hd hsize
  have hwidth : (castInt ((size.toInt : ℚ) / d)).toInt = size.toInt / d := by
    apply toInt_castInt_div (by omega)
    exact lt_of_le_of_lt (Int.ediv_le_self _ (by omega)) hlt
  have hnear : 0 ≤ (nearEdge size d i).toInt := by
    rw [toInt_nearEdge hd hsize]
    exact Int.add_nonneg (Int.ediv_nonneg (by omega) (by omega))
      (Int.ediv_nonneg (by positivity) (by omega))
  unfold farEdge
  rw [toInt_add_of_nonneg hnear, hwidth]
  rw [hwidth]
  exact Int.ediv_nonneg (by omega) (by omega)

/-- The far edge of the last cell, had it no bounds. -/
def lastEdge (n : ℤ) (d : ℕ) : ℤ := ((d - 2) * n - 10 * d) / d + 2 * n / d + n / d

theorem nearEdge_add_le {i i' : Fin 3} (h : i < i') :
    (nearEdge size d i).toInt + size.toInt / d ≤ (nearEdge size d i').toInt := by
  have hten := ten_lt_size hd hsize
  have hstep : (i.val : ℤ) * size.toInt + size.toInt ≤ i'.val * size.toInt := by
    have hlt : (i.val : ℤ) + 1 ≤ i'.val := by exact_mod_cast h
    nlinarith
  have hsum : (i.val : ℤ) * size.toInt / d + size.toInt / d ≤ i'.val * size.toInt / d := by
    apply Int.le_ediv_of_mul_le (by omega)
    rw [Int.add_mul]
    have hfirst := Int.ediv_mul_le ((i.val : ℤ) * size.toInt) (b := d) (by omega)
    have hsecond := Int.ediv_mul_le size.toInt (b := d) (by omega)
    omega
  rw [toInt_nearEdge hd hsize, toInt_nearEdge hd hsize]
  omega

theorem lastEdge_eq :
    lastEdge size.toInt d = (nearEdge size d 2).toInt + size.toInt / d := by
  rw [toInt_nearEdge hd hsize]
  rfl

/-- A last cell that is solid and on the screen ends before its edge. -/
theorem lastEdge_le_of_fits (h : nearEdge size d 2 < farEdge size d 2)
    (hle : farEdge size d 2 ≤ size) : lastEdge size.toInt d ≤ size.toInt := by
  have hnear := (nearEdge size d 2).toInt_lt
  have hcell : size.toInt / d ≤ size.toInt :=
    Int.ediv_le_self _ (by have := ten_lt_size hd hsize; omega)
  have hlt := size.toInt_lt
  rw [Int32.lt_iff_toInt_lt, toInt_farEdge hd hsize] at h
  rw [Int32.le_iff_toInt_le, toInt_farEdge hd hsize] at hle
  rw [lastEdge_eq hd hsize]
  split at h
  · next hfits =>
      rw [if_pos hfits] at hle
      exact hle
  · omega

/-- If the last cell ends before the edge of the screen, all three fit. -/
theorem fitsSide_of_lastEdge_le (hcell : (d : ℤ) ≤ size.toInt)
    (h : lastEdge size.toInt d ≤ size.toInt) :
    FitsSide size (nearEdge size d) (farEdge size d) := by
  have hlt := size.toInt_lt
  have hpixel : 1 ≤ size.toInt / d := by
    apply Int.le_ediv_of_mul_le (by omega)
    omega
  rw [lastEdge_eq hd hsize] at h
  have hle : ∀ i, (nearEdge size d i).toInt + size.toInt / d ≤ size.toInt := by
    intro i
    rcases (Fin.le_last i).lt_or_eq with hbefore | hlast
    · have hstep := nearEdge_add_le hd hsize hbefore
      have hlastNear : Fin.last 2 = 2 := rfl
      rw [hlastNear] at hstep
      omega
    · rw [hlast]
      exact h
  have hfar : ∀ i, (farEdge size d i).toInt =
      (nearEdge size d i).toInt + size.toInt / d := by
    intro i
    have hi := hle i
    rw [toInt_farEdge hd hsize, if_pos (by omega)]
  refine ⟨?_, ?_, ?_⟩
  · intro i
    rw [Int32.lt_iff_toInt_lt, hfar i]
    omega
  · intro i i' hi
    rw [Int32.le_iff_toInt_le, hfar i]
    exact nearEdge_add_le hd hsize hi
  · intro i
    constructor
    · have hten := ten_lt_size hd hsize
      rw [Int32.le_iff_toInt_le, toInt_nearEdge hd hsize, Int32.toInt_zero]
      exact Int.add_nonneg (Int.ediv_nonneg (by omega) (by omega))
        (Int.ediv_nonneg (by positivity) (by omega))
    · rw [Int32.le_iff_toInt_le, hfar i]
      exact hle i

end Side

/-! ## Which screens the grid fits -/

/-- Columns of a fifteenth of the width. -/
theorem lastEdge_width_iff (n : ℤ) : lastEdge n 15 ≤ n ↔ n < 180 ∧ n ≠ 165 := by
  have hr : 0 ≤ n % 15 := Int.emod_nonneg n (by decide)
  have hr' : n % 15 < 15 := Int.emod_lt_of_pos n (by decide)
  have hn := Int.mul_ediv_add_emod n 15
  -- what the three divisions cut off depends on the remainder alone
  generalize n / 15 = q at hn
  generalize n % 15 = r at hr hr' hn
  subst hn
  unfold lastEdge
  interval_cases r <;> omega

/-- Rows of a twelfth of the height. -/
theorem lastEdge_height_iff (n : ℤ) : lastEdge n 12 ≤ n ↔ n < 144 ∧ n ≠ 132 ∧ n ≠ 138 := by
  unfold lastEdge
  omega

section Screen

variable {m : Machine} (layout : DesktopLayout)

/-- The last cell of a layout that fits. -/
theorem lastEdge_le_of_fitsScreen (hw : 15 ≤ m.screenW.toInt) (hh : 12 ≤ m.screenH.toInt)
    (h : FitsScreen m.screenW m.screenH (computeDefaultLayout m layout).cells) :
    lastEdge m.screenW.toInt 15 ≤ m.screenW.toInt ∧
      lastEdge m.screenH.toInt 12 ≤ m.screenH.toInt := by
  have hsolid := h.solid 2 2
  have hinside := h.inside 2 2
  rw [cells_default] at hsolid hinside
  constructor
  · exact lastEdge_le_of_fits (by decide) (by push_cast; omega) hsolid.1 hinside.1.2
  · exact lastEdge_le_of_fits (by decide) (by push_cast; omega) hsolid.2 hinside.2.2

/-- Columns and rows that fit make cells that fit. -/
theorem fitsScreen_of_sides
    (hx : FitsSide m.screenW (nearEdge m.screenW 15) (farEdge m.screenW 15))
    (hy : FitsSide m.screenH (nearEdge m.screenH 12) (farEdge m.screenH 12)) :
    FitsScreen m.screenW m.screenH (computeDefaultLayout m layout).cells := by
  refine ⟨?_, ?_, ?_⟩
  · intro j i
    rw [cells_default]
    exact ⟨hx.solid i, hy.solid j⟩
  · intro j i j' i' hne
    rw [cells_default, cells_default]
    rcases lt_trichotomy i i' with hlt | rfl | hgt
    · exact .inl (hx.ordered i i' hlt)
    · rcases lt_trichotomy j j' with hlt | rfl | hgt
      · exact .inr (.inr (.inl (hy.ordered j j' hlt)))
      · exact absurd rfl hne
      · exact .inr (.inr (.inr (hy.ordered j' j hgt)))
    · exact .inr (.inl (hx.ordered i' i hgt))
  · intro j i
    rw [cells_default]
    exact ⟨hx.inside i, hy.inside j⟩

/-- The default grid fits a screen if and only if the last cell of both axes does: on less
than 180 by 144 pixels, some sides excepted that are divided without rest. -/
theorem computeDefaultLayout_fits_iff (hw : 15 ≤ m.screenW) (hh : 12 ≤ m.screenH) :
    FitsScreen m.screenW m.screenH (computeDefaultLayout m layout).cells ↔
      (m.screenW < 180 ∧ m.screenW ≠ 165) ∧
        m.screenH < 144 ∧ m.screenH ≠ 132 ∧ m.screenH ≠ 138 := by
  have hw' : 15 ≤ m.screenW.toInt := Int32.le_iff_toInt_le.mp hw
  have hh' : 12 ≤ m.screenH.toInt := Int32.le_iff_toInt_le.mp hh
  have hwidth := lastEdge_width_iff m.screenW.toInt
  have hheight := lastEdge_height_iff m.screenH.toInt
  have hlt : ∀ (v c : Int32), v < c ↔ v.toInt < c.toInt := fun v c => Int32.lt_iff_toInt_lt
  have hne : ∀ (v c : Int32), v ≠ c ↔ v.toInt ≠ c.toInt := fun v c => Int32.toInt_inj.not.symm
  have h180 : (180 : Int32).toInt = 180 := by decide
  have h165 : (165 : Int32).toInt = 165 := by decide
  have h144 : (144 : Int32).toInt = 144 := by decide
  have h132 : (132 : Int32).toInt = 132 := by decide
  have h138 : (138 : Int32).toInt = 138 := by decide
  rw [hlt, hne, hlt, hne, hne, h180, h165, h144, h132, h138, ← hwidth, ← hheight]
  constructor
  · exact lastEdge_le_of_fitsScreen layout hw' hh'
  · rintro ⟨hx, hy⟩
    exact fitsScreen_of_sides layout
      (fitsSide_of_lastEdge_le (by decide) (by push_cast; omega) hw' hx)
      (fitsSide_of_lastEdge_le (by decide) (by push_cast; omega) hh' hy)

end Screen

theorem computeDefaultLayout_fits_small :
    FitsScreen 160 120 (computeDefaultLayout (Machine.ofScreen 160 120) {}).cells ↔
      ((160 : Int32) < 180 ∧ (160 : Int32) ≠ 165) ∧
        (120 : Int32) < 144 ∧ (120 : Int32) ≠ 132 ∧ (120 : Int32) ≠ 138 :=
  computeDefaultLayout_fits_iff (m := Machine.ofScreen 160 120) {} (by decide) (by decide)

/-- On a screen of 1920 by 1080 the last column hangs over by 118 pixels. -/
theorem computeDefaultLayout_overhangs :
    ¬∀ (m : Machine) (layout : DesktopLayout), 15 ≤ m.screenW → 12 ≤ m.screenH →
      FitsScreen m.screenW m.screenH (computeDefaultLayout m layout).cells := by
  intro h
  have hfits := h (Machine.ofScreen 1920 1080) {} (by decide) (by decide)
  have hlast := (lastEdge_le_of_fitsScreen {} (by decide) (by decide) hfits).1
  exact absurd hlast (by decide)

end DesktopSync.Analysis
