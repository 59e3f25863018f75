/-
# Chip8.Proofs.Spacing -- the double-precision grid

The grid around a number has the spacing `2 ^ (e - 52)`, where `2 ^ e` is the power of two
below it (`exponent_spec`), unless the number is so small that the least spacing is reached.
What has 53 significant bits and no step finer than that is on the grid (`OnGrid`): it is a
multiple of the spacing around it (`OnGrid.multiple`), and all the nearest multiples are of
this kind (`onGrid_nearest`).

Nearest multiples are ordered as the numbers are.  With one grid around two of them that is so
of the nearest whole numbers (`nearestEven_mono`), and otherwise a power of two lies between
them that is on both grids (`spacing_eq_or_between`).
-/
import Chip8.Number.Binary64
import Mathlib.Algebra.Order.Field.Power
import Mathlib.Data.Rat.Floor
import Mathlib.Tactic.Linarith
import Mathlib.Tactic.Ring

set_option autoImplicit false

namespace Chip8.Binary64

/-! ## Nearest whole numbers -/

theorem floor_eq {q : Rat} {n : Int} (low : (n : Rat) ≤ q) (high : q < n + 1) : q.floor = n :=
  Int.floor_eq_iff.mpr ⟨low, high⟩

theorem intCast_le_nearestEven {q : Rat} {n : Int} (le : (n : Rat) ≤ q) : n ≤ nearestEven q := by
  have below : n ≤ q.floor := Rat.le_floor_iff.mpr le
  unfold nearestEven
  simp only
  split
  · exact below
  · split <;> omega

theorem nearestEven_le_intCast {q : Rat} {n : Int} (le : q ≤ (n : Rat)) : nearestEven q ≤ n := by
  have below : (q.floor : Rat) ≤ q := Rat.floor_le q
  have floor : q.floor ≤ n := by exact_mod_cast below.trans le
  unfold nearestEven
  simp only
  split
  · exact floor
  · rename_i rest
    -- what is left of the number keeps its floor below the bound
    have less : q.floor < n := by
      rcases Int.lt_or_eq_of_le floor with less | same
      · exact less
      · have same : (q.floor : Rat) = n := by exact_mod_cast same
        linarith
    split <;> omega

theorem nearestEven_le_add_half (q : Rat) : (nearestEven q : Rat) ≤ q + 1 / 2 := by
  have below : (q.floor : Rat) ≤ q := Rat.floor_le q
  unfold nearestEven
  simp only
  split
  · linarith
  · rename_i rest
    have parity : ((q.floor % 2 : Int) : Rat) ≤ 1 := by
      exact_mod_cast (by omega : q.floor % 2 ≤ 1)
    split <;> push_cast <;> linarith

theorem nearestEven_intCast (n : Int) : nearestEven (n : Rat) = n :=
  le_antisymm (nearestEven_le_intCast le_rfl) (intCast_le_nearestEven le_rfl)

/-- The nearest whole number on the other side of zero. -/
theorem nearestEven_neg (q : Rat) : nearestEven (-q) = -nearestEven q := by
  have below : (q.floor : Rat) ≤ q := Rat.floor_le q
  rcases below.eq_or_lt with whole | less
  · rw [← whole, ← Int.cast_neg, nearestEven_intCast, nearestEven_intCast]
  · have above : q < ((q.floor + 1 : Int) : Rat) := Rat.lt_floor_add_one q
    push_cast at above
    have floor : (-q).floor = -q.floor - 1 := by
      apply floor_eq <;> push_cast <;> linarith
    unfold nearestEven
    simp only [floor]
    push_cast
    rcases lt_trichotomy (q - q.floor) (1 / 2) with low | half | high
    · rw [if_neg (by linarith), if_pos (by linarith), if_pos low]
      omega
    · rw [if_neg (by linarith), if_neg (by linarith), if_neg (by linarith), if_neg (by linarith)]
      omega
    · rw [if_pos (by linarith), if_neg (by linarith), if_pos high]
      omega

/-- Nearest whole numbers keep the order. -/
theorem nearestEven_mono {q q' : Rat} (le : q ≤ q') : nearestEven q ≤ nearestEven q' := by
  have floor : q.floor ≤ q'.floor := Rat.le_floor_iff.mpr ((Rat.floor_le q).trans le)
  rcases Int.lt_or_eq_of_le floor with less | same
  · have above : q ≤ ((q.floor + 1 : Int) : Rat) := (Rat.lt_floor_add_one q).le
    calc nearestEven q ≤ q.floor + 1 := nearestEven_le_intCast above
      _ ≤ q'.floor := less
      _ ≤ nearestEven q' := intCast_le_nearestEven (Rat.floor_le q')
  · -- with one floor it is what is left of the numbers that counts
    have rest : q - q.floor ≤ q' - q.floor := sub_le_sub_right le _
    unfold nearestEven
    simp only [← same]
    split
    · split
      · exact le_rfl
      · split <;> omega
    · rename_i half
      have half' : ¬ q' - q.floor < 1 / 2 := by linarith
      rw [if_neg half']
      split
      · rename_i more
        have more' : 1 / 2 < q' - q.floor := by linarith
        rw [if_pos more']
      · split <;> omega

/-! ## Powers of two -/

theorem twoPow_eq_zpow (e : Int) : twoPow e = (2 : Rat) ^ e := by
  unfold twoPow
  split
  · rename_i nonneg
    obtain ⟨n, rfl⟩ := Int.eq_ofNat_of_zero_le nonneg
    simp
  · rename_i negative
    obtain ⟨n, rfl⟩ : ∃ n : Nat, e = -n := ⟨(-e).toNat, by omega⟩
    simp [Rat.mkRat_eq_div]

theorem natPow_eq_zpow (n : Nat) : ((Nat.pow 2 n : Nat) : Rat) = (2 : Rat) ^ (n : Int) := by
  rw [zpow_natCast]
  exact_mod_cast rfl

/-- Whether a power of two fits into a fraction, by shifting the smaller side. -/
theorem shifted_le_iff (e : Int) (n d : Nat) :
    (if 0 ≤ e then d <<< e.toNat ≤ n else d ≤ n <<< (-e).toNat) ↔ (2 : Rat) ^ e * d ≤ n := by
  split
  · rename_i nonneg
    obtain ⟨k, rfl⟩ := Int.eq_ofNat_of_zero_le nonneg
    rw [Nat.shiftLeft_eq, Int.toNat_natCast, zpow_natCast, mul_comm]
    exact_mod_cast Iff.rfl
  · rename_i negative
    obtain ⟨k, rfl⟩ : ∃ k : Nat, e = -k := ⟨(-e).toNat, by omega⟩
    have power : (0 : Rat) < 2 ^ k := by positivity
    rw [Nat.shiftLeft_eq, neg_neg, Int.toNat_natCast, zpow_neg, zpow_natCast, inv_mul_le_iff₀ power,
      mul_comm]
    exact_mod_cast Iff.rfl

/-- The power of two below a fraction. -/
theorem floorLog2_spec {n d : Nat} (hn : n ≠ 0) (hd : d ≠ 0) :
    (2 : Rat) ^ floorLog2 n d * d ≤ n ∧ (n : Rat) < (2 : Rat) ^ (floorLog2 n d + 1) * d := by
  have numLow : (2 : Rat) ^ (n.log2 : Int) ≤ n := by exact_mod_cast Nat.log2_self_le hn
  have numHigh : (n : Rat) < (2 : Rat) ^ ((n.log2 : Int) + 1) := by
    exact_mod_cast Nat.lt_log2_self
  have denLow : (2 : Rat) ^ (d.log2 : Int) ≤ d := by exact_mod_cast Nat.log2_self_le hd
  have denHigh : (d : Rat) < (2 : Rat) ^ ((d.log2 : Int) + 1) := by
    exact_mod_cast Nat.lt_log2_self
  -- the quotient of the two powers is at most one too large
  have low : (2 : Rat) ^ ((n.log2 : Int) - d.log2 - 1) * d ≤ n := by
    calc (2 : Rat) ^ ((n.log2 : Int) - d.log2 - 1) * d
        ≤ (2 : Rat) ^ ((n.log2 : Int) - d.log2 - 1) * 2 ^ ((d.log2 : Int) + 1) := by gcongr
      _ = (2 : Rat) ^ (n.log2 : Int) := by
        rw [← zpow_add₀ two_ne_zero]
        congr 1
        omega
      _ ≤ n := numLow
  have high : (n : Rat) < (2 : Rat) ^ ((n.log2 : Int) - d.log2 + 1) * d := by
    calc (n : Rat) < (2 : Rat) ^ ((n.log2 : Int) + 1) := numHigh
      _ = (2 : Rat) ^ ((n.log2 : Int) - d.log2 + 1) * 2 ^ (d.log2 : Int) := by
        rw [← zpow_add₀ two_ne_zero]
        congr 1
        omega
      _ ≤ (2 : Rat) ^ ((n.log2 : Int) - d.log2 + 1) * d := by gcongr
  unfold floorLog2
  simp only [shifted_le_iff]
  split
  · rename_i reached
    exact ⟨reached, high⟩
  · rename_i missed
    rw [sub_add_cancel]
    exact ⟨low, not_le.mp missed⟩

/-- **The exponent of a number**: the power of two below its size. -/
theorem exponent_spec {q : Rat} (nonzero : q ≠ 0) :
    (2 : Rat) ^ floorLog2 q.num.natAbs q.den ≤ |q| ∧
      |q| < (2 : Rat) ^ (floorLog2 q.num.natAbs q.den + 1) := by
  have den : (0 : Rat) < q.den := by exact_mod_cast q.den_pos
  have num : q.num.natAbs ≠ 0 := Int.natAbs_ne_zero.mpr (Rat.num_ne_zero.mpr nonzero)
  obtain ⟨low, high⟩ := floorLog2_spec num q.den_nz
  have size : |q| = (q.num.natAbs : Rat) / q.den := by
    rw [Rat.abs_def, Rat.divInt_eq_div]
    rfl
  rw [size, le_div_iff₀ den, div_lt_iff₀ den]
  exact ⟨low, high⟩

/-! ## Spacings -/

theorem spacing_pos (q : Rat) : 0 < spacing q := by
  rw [spacing, twoPow_eq_zpow]
  positivity

theorem spacing_neg (q : Rat) : spacing (-q) = spacing q := by
  rw [spacing, spacing, Rat.neg_num, Rat.neg_den, Int.natAbs_neg]

/-- The grid around a number below a power of two. -/
theorem spacing_le {q : Rat} {e : Int} (nonzero : q ≠ 0) (below : |q| < (2 : Rat) ^ (e + 1))
    (large : -1022 ≤ e) : spacing q ≤ (2 : Rat) ^ (e - 52) := by
  obtain ⟨low, -⟩ := exponent_spec nonzero
  have less : floorLog2 q.num.natAbs q.den < e + 1 :=
    (zpow_lt_zpow_iff_right₀ one_lt_two).mp (low.trans_lt below)
  rw [spacing, twoPow_eq_zpow]
  exact zpow_le_zpow_right₀ one_le_two (by omega)

/-- Two numbers have one grid around them, or there is a number between them that is on the grids
of both: the power of two below the larger. -/
theorem spacing_eq_or_between {q q' : Rat} (positive : 0 < q) (le : q ≤ q') :
    spacing q' = spacing q ∨
      ∃ g g' : Int, q ≤ g * spacing q ∧ (g : Rat) * spacing q = g' * spacing q' ∧
        (g' : Rat) * spacing q' ≤ q' := by
  have positive' : 0 < q' := positive.trans_le le
  obtain ⟨low, high⟩ := exponent_spec positive.ne'
  obtain ⟨low', high'⟩ := exponent_spec positive'.ne'
  rw [abs_of_pos positive] at low high
  rw [abs_of_pos positive'] at low' high'
  rw [spacing, spacing, twoPow_eq_zpow, twoPow_eq_zpow]
  generalize floorLog2 q.num.natAbs q.den = e at low high ⊢
  generalize floorLog2 q'.num.natAbs q'.den = e' at low' high' ⊢
  have order : e < e' + 1 :=
    (zpow_lt_zpow_iff_right₀ one_lt_two).mp ((low.trans le).trans_lt high')
  by_cases same : max (e' - 52) (-1074) = max (e - 52) (-1074)
  · left
    rw [same]
  · right
    obtain ⟨n, hn⟩ : ∃ n : Nat, e' - max (e - 52) (-1074) = n :=
      ⟨(e' - max (e - 52) (-1074)).toNat, by omega⟩
    have onGrid : ((2 ^ n : Int) : Rat) * 2 ^ max (e - 52) (-1074) = 2 ^ e' := by
      push_cast
      rw [← zpow_natCast, ← zpow_add₀ two_ne_zero, ← hn, sub_add_cancel]
    have onGrid' : ((2 ^ 52 : Int) : Rat) * 2 ^ max (e' - 52) (-1074) = 2 ^ e' := by
      have steps : ((2 ^ 52 : Int) : Rat) = 2 ^ (52 : Int) := by norm_num
      rw [steps, ← zpow_add₀ two_ne_zero]
      congr 1
      omega
    refine ⟨2 ^ n, 2 ^ 52, ?_, onGrid.trans onGrid'.symm, ?_⟩
    · rw [onGrid]
      exact high.le.trans (zpow_le_zpow_right₀ one_le_two (by omega))
    · rw [onGrid']
      exact low'

/-- The nearest multiple of the spacing is beyond no other multiple, from above. -/
theorem multiple_le_nearest {q : Rat} {g : Int} (le : (g : Rat) * spacing q ≤ q) :
    (g : Rat) * spacing q ≤ (nearestEven (q / spacing q) : Rat) * spacing q := by
  have positive := spacing_pos q
  have whole : g ≤ nearestEven (q / spacing q) :=
    intCast_le_nearestEven ((le_div_iff₀ positive).mpr le)
  have cast : (g : Rat) ≤ (nearestEven (q / spacing q) : Rat) := by exact_mod_cast whole
  exact mul_le_mul_of_nonneg_right cast positive.le

/-- Nor from below. -/
theorem nearest_le_multiple {q : Rat} {g : Int} (le : q ≤ (g : Rat) * spacing q) :
    (nearestEven (q / spacing q) : Rat) * spacing q ≤ (g : Rat) * spacing q := by
  have positive := spacing_pos q
  have whole : nearestEven (q / spacing q) ≤ g :=
    nearestEven_le_intCast ((div_le_iff₀ positive).mpr le)
  have cast : (nearestEven (q / spacing q) : Rat) ≤ (g : Rat) := by exact_mod_cast whole
  exact mul_le_mul_of_nonneg_right cast positive.le

/-! ## The grid -/

theorem exactLimit_eq_zpow : ((exactLimit : Int) : Rat) = (2 : Rat) ^ (53 : Int) := by
  rw [exactLimit]
  norm_num

theorem intCast_bounds {n : Int} (small : n.natAbs ≤ exactLimit) :
    -(exactLimit : Rat) ≤ n ∧ (n : Rat) ≤ exactLimit := by
  constructor <;> exact_mod_cast (by omega)

/-- A number with 53 significant bits, and no step finer than the least one. -/
def OnGrid (q : Rat) : Prop :=
  ∃ n k : Int, n.natAbs ≤ exactLimit ∧ -1074 ≤ k ∧ q = n * (2 : Rat) ^ k

theorem onGrid_intCast {n : Int} (small : n.natAbs ≤ exactLimit) : OnGrid (n : Rat) :=
  ⟨n, 0, small, by decide, by simp⟩

/-- What is on the grid is a multiple of the spacing around it. -/
theorem OnGrid.multiple {q : Rat} (grid : OnGrid q) (nonzero : q ≠ 0) :
    ∃ g : Int, q = g * spacing q := by
  obtain ⟨n, k, small, least, rfl⟩ := grid
  obtain ⟨low, -⟩ := exponent_spec nonzero
  rw [spacing, twoPow_eq_zpow]
  generalize floorLog2 ((n : Rat) * 2 ^ k).num.natAbs ((n : Rat) * 2 ^ k).den = e at low ⊢
  have power : (0 : Rat) < 2 ^ k := by positivity
  rw [abs_mul, abs_of_pos power] at low
  have size : |(n : Rat)| ≤ 2 ^ (53 : Int) := by
    rw [← exactLimit_eq_zpow]
    exact abs_le.mpr (intCast_bounds small)
  rcases le_or_gt (max (e - 52) (-1074)) k with finer | coarser
  · obtain ⟨j, hj⟩ : ∃ j : Nat, k - max (e - 52) (-1074) = j :=
      ⟨(k - max (e - 52) (-1074)).toNat, by omega⟩
    refine ⟨n * 2 ^ j, ?_⟩
    push_cast
    rw [mul_assoc, ← zpow_natCast, ← zpow_add₀ two_ne_zero, ← hj, sub_add_cancel]
  · -- a coarser grid is only that of a number with all bits used up, and one bit more
    have exponent : e ≤ 53 + k := by
      have large : (2 : Rat) ^ e ≤ 2 ^ (53 + k) := by
        rw [zpow_add₀ two_ne_zero]
        exact low.trans (mul_le_mul_of_nonneg_right size power.le)
      exact (zpow_le_zpow_iff_right₀ one_lt_two).mp large
    have same : max (e - 52) (-1074) = k + 1 := by omega
    have full : (2 : Rat) ^ (53 : Int) ≤ |(n : Rat)| := by
      have top : e = 53 + k := by omega
      rw [top, zpow_add₀ two_ne_zero] at low
      exact le_of_mul_le_mul_right low power
    have bits : (exactLimit : Int) ≤ n.natAbs := by
      rw [← exactLimit_eq_zpow, ← Int.cast_abs, ← Int.natCast_natAbs] at full
      exact_mod_cast full
    rw [exactLimit] at small bits
    obtain ⟨half, rfl⟩ : ∃ half : Int, n = half * 2 := ⟨n / 2, by omega⟩
    refine ⟨half, ?_⟩
    rw [same, zpow_add₀ two_ne_zero]
    push_cast
    ring

theorem OnGrid.nearest_eq {q : Rat} (grid : OnGrid q) (nonzero : q ≠ 0) :
    (nearestEven (q / spacing q) : Rat) * spacing q = q := by
  obtain ⟨g, multiple⟩ := grid.multiple nonzero
  have whole : q / spacing q = (g : Rat) := (div_eq_iff (spacing_pos q).ne').mpr multiple
  rw [whole, nearestEven_intCast]
  exact multiple.symm

/-- The nearest multiple of the spacing has 53 bits. -/
theorem onGrid_nearest {q : Rat} (nonzero : q ≠ 0) :
    OnGrid ((nearestEven (q / spacing q) : Rat) * spacing q) := by
  obtain ⟨-, high⟩ := exponent_spec nonzero
  rw [spacing, twoPow_eq_zpow]
  generalize floorLog2 q.num.natAbs q.den = e at high ⊢
  have power : (0 : Rat) < 2 ^ max (e - 52) (-1074) := by positivity
  have size : |q| ≤ ((exactLimit : Int) : Rat) * 2 ^ max (e - 52) (-1074) := by
    rw [exactLimit_eq_zpow, ← zpow_add₀ two_ne_zero]
    exact high.le.trans (zpow_le_zpow_right₀ one_le_two (by omega))
  obtain ⟨above, below⟩ := abs_le.mp size
  have least : -(exactLimit : Int) ≤ nearestEven (q / 2 ^ max (e - 52) (-1074)) := by
    apply intCast_le_nearestEven
    rw [le_div_iff₀ power]
    push_cast at above ⊢
    linarith
  have most : nearestEven (q / 2 ^ max (e - 52) (-1074)) ≤ (exactLimit : Int) :=
    nearestEven_le_intCast ((div_le_iff₀ power).mpr below)
  exact ⟨_, max (e - 52) (-1074), by omega, by omega, rfl⟩

/-- The grid is the same on both sides of zero. -/
theorem OnGrid.neg {q : Rat} (grid : OnGrid q) : OnGrid (-q) := by
  obtain ⟨n, k, small, least, rfl⟩ := grid
  refine ⟨-n, k, ?_, least, ?_⟩
  · rwa [Int.natAbs_neg]
  · push_cast
    ring

/-- A whole number with more than 53 significant bits is even. -/
theorem OnGrid.natAbs_le_of_odd {n : Int} (grid : OnGrid (n : Rat)) (odd : n % 2 = 1) :
    n.natAbs ≤ exactLimit := by
  obtain ⟨m, k, small, -, eq⟩ := grid
  rcases le_or_gt k 0 with fraction | multiple
  · -- the step is a fraction of one, so the number has no more bits than its significand
    obtain ⟨j, rfl⟩ : ∃ j : Nat, k = -j := ⟨(-k).toNat, by omega⟩
    have power : (2 : Rat) ^ j ≠ 0 := by positivity
    have whole : n * 2 ^ j = m := by
      rw [zpow_neg, zpow_natCast, eq_mul_inv_iff_mul_eq₀ power] at eq
      exact_mod_cast eq
    calc n.natAbs ≤ n.natAbs * 2 ^ j := Nat.le_mul_of_pos_right _ (by positivity)
      _ = m.natAbs := by rw [← whole, Int.natAbs_mul, Int.natAbs_pow]; rfl
      _ ≤ exactLimit := small
  · obtain ⟨j, rfl⟩ : ∃ j : Nat, k = (j + 1 : Nat) := ⟨(k - 1).toNat, by omega⟩
    have even : n = m * 2 ^ j * 2 := by
      rw [zpow_natCast, pow_succ, ← mul_assoc] at eq
      exact_mod_cast eq
    omega

/-- **Beyond `2 ^ 53` no two whole numbers on the grid follow each other**, since one of them is
odd. -/
theorem exact_of_onGrid {n : Int} (grid : OnGrid (n : Rat)) (grid' : OnGrid ((n + 1 : Int) : Rat)) :
    -9007199254740992 ≤ n ∧ n + 1 ≤ 9007199254740992 := by
  rcases Int.emod_two_eq_zero_or_one n with even | odd
  · have small := grid'.natAbs_le_of_odd (by omega)
    rw [exactLimit] at small
    omega
  · have small := grid.natAbs_le_of_odd odd
    rw [exactLimit] at small
    omega

theorem onGrid_infinity : OnGrid infinity := by
  refine ⟨exactLimit, 971, by decide, by decide, ?_⟩
  -- the exponent has a name, so that nobody works the power out
  obtain ⟨e, he, power⟩ : ∃ e, e = 1024 ∧ infinity = ((Nat.pow 2 e : Nat) : Rat) := ⟨_, rfl, rfl⟩
  rw [power, natPow_eq_zpow, exactLimit_eq_zpow, ← zpow_add₀ two_ne_zero, he]
  congr 1

end Chip8.Binary64
