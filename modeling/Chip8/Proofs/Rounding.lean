/-
# Chip8.Proofs.Rounding -- how far rounding can carry a number

A finite number is rounded to the nearest multiple of the spacing around it
(`round_eq_nearest`), and an infinite one to its end of the grid.  So rounding leads to the
grid (`onGrid_round`), leaves what is there (`OnGrid.round_eq`), and keeps the order of any two
numbers (`round_mono`).  Whole numbers up to `2 ^ 53` are on the grid, hence rounding passes none
of them (`intCast_le_round`, `round_le_intCast`): a difference that is at least 200 is rounded
to at least 200, and one that is at most 2 to at most 2.

Rounding carries a number by half a step at most (`round_le_add_half`), which below 256 is no
more than `2 ^ -46` (`round_le_of_lt_zpow`).  That is not enough to carry a finite number to an
end of the grid (`beyondRange_round`).  A whole number is rounded to a whole one
(`round_natCast_spec`), and far out those on the grid are multiples of a power of two
(`OnGrid.two_pow_dvd`).
-/
import Chip8.Proofs.Spacing

set_option autoImplicit false

namespace Chip8.Binary64

/-! ## The ends of the grid -/

theorem lt_rangeEnd_of_finite {q : Rat} (finite : beyondRange q = false) :
    -(rangeEnd : Rat) < q ∧ q < rangeEnd := by
  simpa [beyondRange, and_comm] using finite

theorem beyondRange_of_lt {q : Rat} (low : -(rangeEnd : Rat) < q) (high : q < rangeEnd) :
    beyondRange q = false := by
  simp [beyondRange, low, high]

theorem beyondRange_of_le_exactLimit {q : Rat} (low : -9007199254740992 ≤ q)
    (high : q ≤ 9007199254740992) : beyondRange q = false := by
  have range : ((exactLimit : Nat) : Rat) < rangeEnd := by exact_mod_cast exactLimit_lt_rangeEnd
  rw [exactLimit] at range
  push_cast at range
  exact beyondRange_of_lt (by linarith) (by linarith)

theorem beyondRange_neg (q : Rat) : beyondRange (-q) = beyondRange q := by
  rw [beyondRange, beyondRange, Bool.or_comm]
  congr 1
  · exact decide_eq_decide.mpr neg_le_neg_iff
  · exact decide_eq_decide.mpr le_neg

theorem rangeEnd_pos : (0 : Rat) < rangeEnd := by
  exact_mod_cast Nat.zero_lt_of_lt exactLimit_lt_rangeEnd

theorem beyondRange_zero : beyondRange 0 = false :=
  beyondRange_of_lt (neg_neg_of_pos rangeEnd_pos) rangeEnd_pos

/-- The ends of the grid lie farther out than any finite number and any whole one. -/
theorem rangeEnd_add_exactLimit_le_infinity : (rangeEnd : Rat) + exactLimit ≤ infinity := by
  rw [infinity]
  exact_mod_cast (by decide +kernel : rangeEnd + exactLimit ≤ Nat.pow 2 1024)

theorem rangeEnd_le_infinity : (rangeEnd : Rat) ≤ infinity := by
  have far := rangeEnd_add_exactLimit_le_infinity
  have positive : (0 : Rat) ≤ exactLimit := by exact_mod_cast Nat.zero_le exactLimit
  linarith

theorem beyondRange_infinity : beyondRange infinity = true := by
  simp [beyondRange, rangeEnd_le_infinity]

theorem beyondRange_neg_infinity : beyondRange (-infinity) = true :=
  (beyondRange_neg infinity).trans beyondRange_infinity

/-! ## Rounding -/

theorem round_zero : round 0 = 0 := by
  exact_mod_cast round_intCast (n := 0) (by decide)

/-- A finite number goes to the nearest multiple of the spacing, also where it is kept for being
whole. -/
theorem round_eq_nearest {q : Rat} (nonzero : q ≠ 0) (inside : beyondRange q = false) :
    round q = (nearestEven (q / spacing q) : Rat) * spacing q := by
  by_cases whole : q.den = 1 ∧ q.num.natAbs ≤ exactLimit
  · have grid : OnGrid q := by
      rw [← (Rat.den_eq_one_iff q).mp whole.1]
      exact onGrid_intCast whole.2
    rw [round, if_pos whole]
    exact (grid.nearest_eq nonzero).symm
  · rw [round, if_neg whole, inside]
    rfl

theorem round_of_rangeEnd_le {q : Rat} (far : (rangeEnd : Rat) ≤ q) : round q = infinity := by
  have range : (exactLimit : Rat) < rangeEnd := by exact_mod_cast exactLimit_lt_rangeEnd
  have large : ¬ (q.den = 1 ∧ q.num.natAbs ≤ exactLimit) := by
    rintro ⟨whole, small⟩
    have bounds := intCast_bounds small
    rw [(Rat.den_eq_one_iff q).mp whole] at bounds
    linarith
  have beyond : beyondRange q = true := by simp [beyondRange, far]
  have positive := rangeEnd_pos
  rw [round, if_neg large, if_pos beyond, if_neg (by linarith)]

/-- A number and the one on the other side of zero are rounded alike. -/
theorem round_neg (q : Rat) : round (-q) = -round q := by
  rcases eq_or_ne q 0 with rfl | nonzero
  · rw [neg_zero, round_zero, neg_zero]
  unfold round
  rw [Rat.neg_num, Rat.neg_den, Int.natAbs_neg, beyondRange_neg, spacing_neg, neg_div,
    nearestEven_neg]
  split
  · rfl
  split
  · rcases lt_or_gt_of_ne nonzero with negative | positive
    · rw [if_pos negative, if_neg (by linarith), neg_neg]
    · rw [if_pos (by linarith), if_neg (by linarith)]
  · push_cast
    ring

/-- What is on the grid stays where it is. -/
theorem OnGrid.round_eq {q : Rat} (grid : OnGrid q) (inside : beyondRange q = false) :
    round q = q := by
  rcases eq_or_ne q 0 with rfl | nonzero
  · exact round_zero
  · exact (round_eq_nearest nonzero inside).trans (grid.nearest_eq nonzero)

/-- **Rounding leads to the grid.** -/
theorem onGrid_round (q : Rat) : OnGrid (round q) := by
  rcases le_or_gt (rangeEnd : Rat) q with far | near
  · rw [round_of_rangeEnd_le far]
    exact onGrid_infinity
  rcases le_or_gt (rangeEnd : Rat) (-q) with far | near'
  · rw [← neg_neg q, round_neg, round_of_rangeEnd_le far]
    exact onGrid_infinity.neg
  rcases eq_or_ne q 0 with rfl | nonzero
  · rw [round_zero]
    exact onGrid_intCast (n := 0) (by decide)
  · rw [round_eq_nearest nonzero (beyondRange_of_lt (by linarith) near)]
    exact onGrid_nearest nonzero

/-! ## Order -/

theorem round_nonneg {q : Rat} (nonneg : 0 ≤ q) : 0 ≤ round q := by
  have range := rangeEnd_pos
  rcases nonneg.eq_or_lt with rfl | positive
  · exact round_zero.ge
  rcases le_or_gt (rangeEnd : Rat) q with far | near
  · rw [round_of_rangeEnd_le far]
    exact range.le.trans rangeEnd_le_infinity
  · rw [round_eq_nearest positive.ne' (beyondRange_of_lt (by linarith) near)]
    have step := spacing_pos q
    have whole : 0 ≤ nearestEven (q / spacing q) :=
      intCast_le_nearestEven (by exact_mod_cast (div_pos positive step).le)
    exact mul_nonneg (by exact_mod_cast whole) step.le

/-- No number is rounded to one above the upper end. -/
theorem round_le_infinity (q : Rat) : round q ≤ infinity := by
  have range := rangeEnd_pos
  have upper := rangeEnd_le_infinity
  rcases le_or_gt q 0 with low | positive
  · have rounded := round_nonneg (neg_nonneg.mpr low)
    rw [round_neg] at rounded
    linarith
  rcases le_or_gt (rangeEnd : Rat) q with far | near
  · exact (round_of_rangeEnd_le far).le
  have le : q ≤ infinity := near.le.trans upper
  rw [round_eq_nearest positive.ne' (beyondRange_of_lt (by linarith) near)]
  rcases spacing_eq_or_between positive le with same | ⟨g, g', above, between, below⟩
  · obtain ⟨g, multiple⟩ := onGrid_infinity.multiple (range.trans_le upper).ne'
    rw [same] at multiple
    rw [multiple] at le ⊢
    exact nearest_le_multiple le
  · exact (nearest_le_multiple above).trans (between.le.trans below)

theorem round_mono_of_pos {q q' : Rat} (positive : 0 < q) (le : q ≤ q')
    (near : q' < (rangeEnd : Rat)) : round q ≤ round q' := by
  have range := rangeEnd_pos
  have inside : beyondRange q = false := beyondRange_of_lt (by linarith) (le.trans_lt near)
  have inside' : beyondRange q' = false := beyondRange_of_lt (by linarith) near
  rw [round_eq_nearest positive.ne' inside, round_eq_nearest (positive.trans_le le).ne' inside']
  rcases spacing_eq_or_between positive le with same | ⟨g, g', above, between, below⟩
  · have step : 0 < spacing q := spacing_pos q
    have order : nearestEven (q / spacing q) ≤ nearestEven (q' / spacing q) :=
      nearestEven_mono (div_le_div_of_nonneg_right le step.le)
    rw [same]
    exact mul_le_mul_of_nonneg_right (by exact_mod_cast order) step.le
  · exact (nearest_le_multiple above).trans (between.le.trans (multiple_le_nearest below))

/-- **Rounding keeps the order.** -/
theorem round_mono {q q' : Rat} (le : q ≤ q') : round q ≤ round q' := by
  rcases le_or_gt (rangeEnd : Rat) q' with far | near'
  · rw [round_of_rangeEnd_le far]
    exact round_le_infinity q
  rcases le_or_gt (rangeEnd : Rat) (-q) with far | near
  · rw [← neg_le_neg_iff, ← round_neg, ← round_neg, round_of_rangeEnd_le far]
    exact round_le_infinity (-q')
  -- finite numbers lie on one side of zero, or it lies between them
  rcases lt_or_ge 0 q with positive | low
  · exact round_mono_of_pos positive le near'
  rcases lt_or_ge q' 0 with negative | high
  · rw [← neg_le_neg_iff, ← round_neg, ← round_neg]
    exact round_mono_of_pos (neg_pos.mpr negative) (neg_le_neg le) near
  · have lower := round_nonneg (neg_nonneg.mpr low)
    rw [round_neg] at lower
    exact (neg_nonneg.mp lower).trans (round_nonneg high)

theorem round_nonpos {q : Rat} (nonpos : q ≤ 0) : round q ≤ 0 :=
  (round_mono nonpos).trans round_zero.le

theorem pos_of_round_pos {q : Rat} (positive : 0 < round q) : 0 < q := by
  by_contra low
  exact absurd (round_nonpos (not_lt.mp low)) (not_le.mpr positive)

section Whole

variable {q : Rat} {n : Int} (small : n.natAbs ≤ exactLimit)

include small

/-- **Rounding passes no whole number** from above. -/
theorem intCast_le_round (le : (n : Rat) ≤ q) : (n : Rat) ≤ round q :=
  (round_intCast small).ge.trans (round_mono le)

/-- **Rounding passes no whole number** from below. -/
theorem round_le_intCast (le : q ≤ (n : Rat)) : round q ≤ n :=
  (round_mono le).trans (round_intCast small).le

end Whole

/-! ## Errors -/

/-- Rounding carries a number up by half a step at most. -/
theorem round_le_add_half {q : Rat} (inside : beyondRange q = false) :
    round q ≤ q + spacing q / 2 := by
  have positive := spacing_pos q
  rcases eq_or_ne q 0 with rfl | nonzero
  · rw [round_zero]
    linarith
  · calc round q = (nearestEven (q / spacing q) : Rat) * spacing q :=
          round_eq_nearest nonzero inside
      _ ≤ (q / spacing q + 1 / 2) * spacing q :=
        mul_le_mul_of_nonneg_right (nearestEven_le_add_half _) positive.le
      _ = q + spacing q / 2 := by
        field_simp

/-- **Below a power of two rounding carries a number up by half the step there**: by no more
than `2 ^ -46` below 256. -/
theorem round_le_of_lt_zpow {q : Rat} {e : Int} (positive : 0 < q)
    (below : q < (2 : Rat) ^ (e + 1)) (large : -1022 ≤ e) (inside : beyondRange q = false) :
    round q ≤ q + (2 : Rat) ^ (e - 53) := by
  have size : |q| < (2 : Rat) ^ (e + 1) := by rwa [abs_of_pos positive]
  calc round q ≤ q + spacing q / 2 := round_le_add_half inside
    _ ≤ q + (2 : Rat) ^ (e - 52) / 2 := by
      have step := spacing_le positive.ne' size large
      linarith
    _ = q + (2 : Rat) ^ (e - 53) := by
      have next : e - 52 = e - 53 + 1 := by ring
      rw [next, zpow_add_one₀ two_ne_zero, mul_div_cancel_right₀ _ two_ne_zero]

/-! ## Staying finite -/

/-- The end of the range in steps of half the largest spacing: an odd number of them, one short of
`2 ^ 54`. -/
theorem rangeEnd_steps : ∃ e : Int, -1075 ≤ e ∧
    (rangeEnd : Rat) = 18014398509481983 * 2 ^ e ∧
    (2 : Rat) ^ (e + 53 + 1) = 18014398509481984 * 2 ^ e := by
  -- the exponent has a name, so that nobody works the power out
  obtain ⟨e, power⟩ : ∃ e, rangeEnd = 18014398509481983 * Nat.pow 2 e := by
    unfold rangeEnd
    exact ⟨_, rfl⟩
  refine ⟨e, by omega, ?_, ?_⟩
  · rw [power, Nat.cast_mul, natPow_eq_zpow, Nat.cast_ofNat]
  · rw [add_assoc, zpow_add₀ two_ne_zero, mul_comm]
    norm_num

/-- Numbers of 53 bits miss the odd one of 54 bits. -/
theorem OnGrid.lt_odd {q : Rat} (grid : OnGrid q) {e : Int}
    (below : q < 18014398509481984 * 2 ^ e) : q < 18014398509481983 * 2 ^ e := by
  obtain ⟨n, k, small, -, rfl⟩ := grid
  have power : (0 : Rat) < 2 ^ e := by positivity
  rcases le_or_gt k e with fine | coarse
  · -- with steps of this size 53 bits do not reach so far
    have steps : (2 : Rat) ^ k ≤ 2 ^ e := zpow_le_zpow_right₀ one_le_two fine
    have most : (n : Rat) ≤ exactLimit := (intCast_bounds small).2
    calc (n : Rat) * 2 ^ k ≤ exactLimit * 2 ^ e :=
          mul_le_mul most steps (by positivity) (Nat.cast_nonneg _)
      _ < 18014398509481983 * 2 ^ e := by
        refine mul_lt_mul_of_pos_right ?_ power
        exact_mod_cast (by decide : exactLimit < 18014398509481983)
  · -- and larger steps are even
    obtain ⟨j, rfl⟩ : ∃ j : Nat, k = j + 1 + e := ⟨(k - e - 1).toNat, by omega⟩
    have even : (n : Rat) * 2 ^ ((j : Int) + 1 + e) = ((n * 2 ^ j * 2 : Int) : Rat) * 2 ^ e := by
      rw [zpow_add₀ two_ne_zero, zpow_add_one₀ two_ne_zero, zpow_natCast]
      push_cast
      ring
    rw [even] at below ⊢
    have less : n * 2 ^ j * 2 < 18014398509481984 := by
      exact_mod_cast lt_of_mul_lt_mul_right below power.le
    have odd : n * 2 ^ j * 2 < 18014398509481983 := by omega
    refine mul_lt_mul_of_pos_right ?_ power
    exact_mod_cast odd

/-- Rounding does not reach the end of the range from below it. -/
theorem round_lt_rangeEnd {q : Rat} (below : q < rangeEnd) : round q < rangeEnd := by
  have range := rangeEnd_pos
  rcases le_or_gt q 0 with low | positive
  · exact (round_nonpos low).trans_lt range
  obtain ⟨e, least, odd, power⟩ := rangeEnd_steps
  have inside : beyondRange q = false := beyondRange_of_lt (by linarith) below
  have step : (0 : Rat) < 2 ^ e := by positivity
  rw [odd] at below ⊢
  have size : q < (2 : Rat) ^ (e + 53 + 1) := by linarith
  have near : round q ≤ q + (2 : Rat) ^ (e + 53 - 53) :=
    round_le_of_lt_zpow positive size (by omega) inside
  rw [add_sub_cancel_right] at near
  exact (onGrid_round q).lt_odd (by linarith)

/-- **What is finite stays finite**: half a step below the end of the grid nothing is rounded to
it. -/
theorem beyondRange_round {q : Rat} (inside : beyondRange q = false) :
    beyondRange (round q) = false := by
  obtain ⟨low, high⟩ := lt_rangeEnd_of_finite inside
  have below := round_lt_rangeEnd (q := -q) (by linarith)
  rw [round_neg] at below
  exact beyondRange_of_lt (by linarith) (round_lt_rangeEnd high)

/-- A sum that is on the grid is exact. -/
theorem OnGrid.add_eq {a b : Rat} (grid : OnGrid (a + b)) (first : beyondRange a = false)
    (second : beyondRange b = false) (inside : beyondRange (a + b) = false) :
    add a b = a + b := by
  simp [add, first, second, grid.round_eq inside]

/-! ## Whole numbers far out -/

/-- **A whole number is rounded to a whole number**, and a finite one to a finite one. -/
theorem round_natCast_spec {n : Nat} (inside : n < rangeEnd) :
    ∃ k : Nat, k < rangeEnd ∧ round (n : Rat) = k := by
  rcases Nat.lt_or_ge exactLimit n with large | small
  · obtain ⟨m, k, bits, -, rounded⟩ := onGrid_round (n : Rat)
    have size : (exactLimit : Rat) ≤ round (n : Rat) :=
      intCast_le_round (n := exactLimit) (Nat.le_refl _) (by exact_mod_cast large.le)
    have most : (m : Rat) ≤ exactLimit := (intCast_bounds bits).2
    have positive : (0 : Rat) < exactLimit := by rw [exactLimit]; norm_num
    -- with a fraction as its step a number has no more than the bits of its significand
    have whole : 0 ≤ k := by
      by_contra fraction
      have half : (2 : Rat) ^ k ≤ 2 ^ (-1 : Int) := zpow_le_zpow_right₀ one_le_two (by omega)
      have less : (m : Rat) * 2 ^ k ≤ exactLimit * 2 ^ (-1 : Int) :=
        mul_le_mul most half (by positivity) positive.le
      rw [← rounded, zpow_neg_one] at less
      linarith
    obtain ⟨j, rfl⟩ := Int.eq_ofNat_of_zero_le whole
    have cast : round (n : Rat) = ((m * 2 ^ j : Int) : Rat) := by
      rw [rounded, zpow_natCast]
      push_cast
      rfl
    rw [cast] at size
    have nonneg : 0 ≤ m * 2 ^ j := by exact_mod_cast positive.le.trans size
    obtain ⟨k, same⟩ := Int.eq_ofNat_of_zero_le nonneg
    have reached : round (n : Rat) = (k : Rat) := by
      rw [cast, same]
      rfl
    have below := round_lt_rangeEnd (q := n) (by exact_mod_cast inside)
    rw [reached] at below
    exact ⟨k, by exact_mod_cast below, reached⟩
  · exact ⟨n, inside, round_natCast small⟩

/-- Far out whole numbers on the grid are multiples of a power of two. -/
theorem OnGrid.two_pow_dvd {n j : Nat} (grid : OnGrid (n : Rat)) (large : 2 ^ (53 + j) ≤ n) :
    2 ^ j ∣ n := by
  obtain ⟨m, k, bits, -, eq⟩ := grid
  have most : (m : Rat) ≤ 2 ^ (53 : Int) := by
    rw [← exactLimit_eq_zpow]
    exact (intCast_bounds bits).2
  have steps : (j : Int) ≤ k := by
    have size : (2 : Rat) ^ ((53 : Int) + j) ≤ 2 ^ ((53 : Int) + k) := by
      calc (2 : Rat) ^ ((53 : Int) + j) ≤ n := by exact_mod_cast large
        _ = m * 2 ^ k := eq
        _ ≤ 2 ^ (53 : Int) * 2 ^ k := mul_le_mul_of_nonneg_right most (by positivity)
        _ = 2 ^ ((53 : Int) + k) := (zpow_add₀ two_ne_zero _ _).symm
    have := (zpow_le_zpow_iff_right₀ one_lt_two).mp size
    omega
  obtain ⟨i, rfl⟩ : ∃ i : Nat, k = i + j := ⟨(k - j).toNat, by omega⟩
  have whole : (n : Int) = m * 2 ^ i * 2 ^ j := by
    rw [zpow_add₀ two_ne_zero, zpow_natCast, zpow_natCast, ← mul_assoc] at eq
    exact_mod_cast eq
  have divides : ((2 ^ j : Nat) : Int) ∣ n := ⟨m * 2 ^ i, by rw [whole]; push_cast; ring⟩
  exact_mod_cast divides

/-- Before the end of the range there is room behind every whole number on the grid. -/
theorem OnGrid.add_seven_lt_rangeEnd {n : Nat} (grid : OnGrid (n : Rat)) (inside : n < rangeEnd) :
    n + 7 < rangeEnd := by
  rcases Nat.lt_or_ge n (2 ^ 56) with near | far
  · have room : 2 ^ 56 + 7 < rangeEnd := by decide +kernel
    omega
  · have eighth : 2 ^ 3 ∣ n := grid.two_pow_dvd far
    have last : 2 ^ 3 ∣ rangeEnd := by decide +kernel
    omega

/-! ## Clocks -/

/-- **Time never goes back**: a finite reading on the grid is not followed by an earlier one. -/
theorem add_natCast_spec {now : Rat} {ms : Nat} (grid : OnGrid now)
    (finite : beyondRange (add now ms) = false) :
    beyondRange now = false ∧ now ≤ add now ms ∧ OnGrid (add now ms) := by
  rw [add] at finite ⊢
  cases here : beyondRange now with
  | true =>
    rw [here, if_pos rfl, here] at finite
    cases finite
  | false =>
    cases far : beyondRange (ms : Rat) with
    | true =>
      rw [here, far, if_neg Bool.false_ne_true, if_pos rfl, far] at finite
      cases finite
    | false =>
      rw [if_neg Bool.false_ne_true, if_neg Bool.false_ne_true]
      have later : now ≤ now + ms := by
        have nonneg : (0 : Rat) ≤ ms := by exact_mod_cast Nat.zero_le ms
        linarith
      refine ⟨rfl, ?_, onGrid_round _⟩
      calc now = round now := (grid.round_eq here).symm
        _ ≤ round (now + ms) := round_mono later

end Chip8.Binary64
