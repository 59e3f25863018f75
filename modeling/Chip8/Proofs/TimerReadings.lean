/-
# Chip8.Proofs.TimerReadings -- what a reading of the delay timer says

The delay timer is read from two clock readings, that of the last setting and that of now.
Only their distance is rounded: dividing it by sixteen loses nothing that a whole number of
ticks would show (`Binary64.floor_round_div_sixteen`).  So the answer is the value less one for
each sixteen milliseconds of the rounded distance (`Timer.read_eq`).

Hence a timer counts down by whatever finite clock (`Timer.countsDown_leftAfter`): it shows the
value it was set to up to that time and never more, falls as the reading rises, is late with no
tick, and early with none by more than `2 ^ -42` milliseconds.
-/
import Chip8.Proofs.Rounding
import Chip8.Timer

set_option autoImplicit false

namespace Chip8

/-! ## Sixteenths -/

namespace Binary64

/-- A number that is not too small can be divided by sixteen. -/
theorem OnGrid.div_sixteen {q : Rat} (grid : OnGrid q) (large : 1 ≤ q) : OnGrid (q / 16) := by
  obtain ⟨n, k, small, -, rfl⟩ := grid
  have exponent : 0 ≤ 53 + k := by
    have power : (0 : Rat) < 2 ^ k := by positivity
    have size : (1 : Rat) ≤ 2 ^ (53 + k) := by
      rw [zpow_add₀ two_ne_zero, ← exactLimit_eq_zpow]
      exact large.trans (mul_le_mul_of_nonneg_right (intCast_bounds small).2 power.le)
    rw [← zpow_zero (2 : Rat)] at size
    exact (zpow_le_zpow_iff_right₀ one_lt_two).mp size
  refine ⟨n, k - 4, small, by omega, ?_⟩
  rw [zpow_sub₀ two_ne_zero]
  norm_num
  ring

/-- **A whole number of sixteenths is not rounded away.** -/
theorem floor_round_div_sixteen {q : Rat} (grid : OnGrid q) (nonneg : 0 ≤ q)
    (finite : beyondRange q = false) : (round (q / 16)).floor = (q / 16).floor := by
  have inside := lt_rangeEnd_of_finite finite
  rcases le_or_gt 1 q with large | small
  · rw [(grid.div_sixteen large).round_eq (beyondRange_of_lt (by linarith) (by linarith))]
  · -- less than a sixteenth stays less than one half
    have half : OnGrid (1 / 2) := ⟨1, -1, by decide, by decide, by norm_num⟩
    have upper : round (q / 16) ≤ 1 / 2 := by
      rw [← half.round_eq (beyondRange_of_le_exactLimit (by norm_num) (by norm_num))]
      exact round_mono (by linarith)
    have lower : 0 ≤ round (q / 16) := round_nonneg (by linarith)
    rw [floor_eq (n := 0) (by push_cast; exact lower) (by push_cast; linarith),
      floor_eq (n := 0) (by push_cast; linarith) (by push_cast; linarith)]

end Binary64

/-! ## Readings -/

namespace Timer

theorem countedDown_eq (value : UInt8) {ticks : Int} (nonneg : 0 ≤ ticks) :
    (countedDown (byteValue value) ticks).map wrapByte =
      some (UInt8.ofNat (value.toNat - ticks.toNat)) := by
  have small := value.toNat_lt
  have cast : byteValue value = ((value.toNat : Int) : Rat) := rfl
  rw [countedDown]
  split
  · rename_i reached
    have reached : (value.toNat : Int) ≤ ticks := by
      rw [cast] at reached
      exact_mod_cast reached
    have spent : value.toNat - ticks.toNat = 0 := by omega
    rw [spent]
    rfl
  · rename_i left
    have left : ticks < (value.toNat : Int) := by
      rw [cast] at left
      exact_mod_cast not_le.mp left
    have less : ((value.toNat - ticks) % 256 : Int).toNat = value.toNat - ticks.toNat := by omega
    rw [cast, Binary64.sub?_exact (by omega) left.le (by omega) (by omega), Option.map_some,
      wrapByte_intCast, less]

/-- What is left of a value after some time: a tick is taken off for each sixteen milliseconds
of it. -/
def leftAfter (value : Nat) (passed : Rat) : Nat := value - (passed / 16).floor.toNat

theorem leftAfter_le (value : Nat) (passed : Rat) : leftAfter value passed ≤ value :=
  Nat.sub_le _ _

theorem leftAfter_of_nonpos (value : Nat) {passed : Rat} (early : passed ≤ 0) :
    leftAfter value passed = value := by
  have below : ((passed / 16).floor : Rat) ≤ ((0 : Int) : Rat) := by
    push_cast
    linarith [Rat.floor_le (passed / 16)]
  have below : (passed / 16).floor ≤ 0 := by exact_mod_cast below
  rw [leftAfter]
  omega

theorem leftAfter_le_sub (value : Nat) {passed : Rat} {n : Nat} (late : 16 * n ≤ passed) :
    leftAfter value passed ≤ value - n := by
  have ticks : (n : Int) ≤ (passed / 16).floor := by
    apply Rat.le_floor_iff.mpr
    push_cast
    linarith
  rw [leftAfter]
  omega

theorem le_passed_of_leftAfter {value n : Nat} {passed : Rat} (positive : 0 < n) (most : n ≤ value)
    (left : leftAfter value passed ≤ value - n) : 16 * n ≤ passed := by
  have ticks : (n : Int) ≤ (passed / 16).floor := by
    rw [leftAfter] at left
    omega
  have ticks := Rat.le_floor_iff.mp ticks
  push_cast at ticks
  linarith

theorem leftAfter_anti (value : Nat) {passed later : Rat} (le : passed ≤ later) :
    leftAfter value later ≤ leftAfter value passed := by
  have below := Rat.floor_le (passed / 16)
  have floor : (passed / 16).floor ≤ (later / 16).floor := Rat.le_floor_iff.mpr (by linarith)
  rw [leftAfter, leftAfter]
  omega

theorem leftAfter_natCast (value ms : Nat) : leftAfter value (ms : Rat) = value - ms / 16 := by
  have whole : ((ms : Rat) / 16).floor = ((ms / 16 : Nat) : Int) :=
    Rat.floor_natCast_div_natCast ms 16
  rw [leftAfter, whole]
  rfl

theorem div?_tickInterval (passed : Rat) :
    Binary64.div? passed tickInterval false =
      some (if Binary64.beyondRange passed then passed else Binary64.round (passed / 16)) := by
  have finite : Binary64.beyondRange 16 = false :=
    Binary64.beyondRange_of_le_exactLimit (by norm_num) (by norm_num)
  have nonzero : (16 : Rat) ≠ 0 := by norm_num
  have positive : ¬ (16 : Rat) < 0 := by norm_num
  rw [Binary64.div?, tickInterval, if_neg nonzero, finite, if_neg positive]
  cases Binary64.beyondRange passed <;> rfl

/-- A time too long to be kept exactly is longer than every countdown. -/
theorem leftAfter_round_natCast {value : Nat} (small : value < 256) (ms : Nat) :
    leftAfter value (Binary64.round (ms : Rat)) = value - ms / 16 := by
  rcases le_or_gt ms Binary64.exactLimit with exact | far
  · rw [Binary64.round_natCast exact, leftAfter_natCast]
  · rw [Binary64.exactLimit] at far
    have rounded := Binary64.intCast_le_round (q := (ms : Rat)) (n := 4096) (by decide)
      (by exact_mod_cast (by omega : 4096 ≤ ms))
    have late : 16 * ((256 : Nat) : Rat) ≤ Binary64.round (ms : Rat) := by
      push_cast at rounded ⊢
      linarith
    have left := leftAfter_le_sub value late
    omega

/-- The quotient of a time passed and the length of a tick says what is left. -/
theorem exists_ticks (value : UInt8) {passed : Rat} (nonneg : 0 ≤ passed)
    (grid : Binary64.beyondRange passed = false → Binary64.OnGrid passed) :
    ∃ ticks, Binary64.div? passed tickInterval false = some ticks ∧ 0 ≤ ticks.floor ∧
      value.toNat - ticks.floor.toNat = leftAfter value.toNat passed := by
  have small := value.toNat_lt
  have sixteenth : 0 ≤ (passed / 16).floor := Rat.le_floor_iff.mpr (by push_cast; linarith)
  cases beyond : Binary64.beyondRange passed with
  | true =>
    have far : (4096 : Rat) ≤ passed := by
      by_contra near
      rw [Binary64.beyondRange_of_le_exactLimit (by linarith) (by linarith)] at beyond
      cases beyond
    have floor : (256 : Int) ≤ passed.floor := Rat.le_floor_iff.mpr (by push_cast; linarith)
    have late : 16 * ((256 : Nat) : Rat) ≤ passed := by
      push_cast
      linarith
    have ticks := leftAfter_le_sub value.toNat late
    exact ⟨passed, by rw [div?_tickInterval, beyond]; rfl, by omega, by omega⟩
  | false =>
    have whole := Binary64.floor_round_div_sixteen (grid beyond) nonneg beyond
    refine ⟨Binary64.round (passed / 16), ?_, ?_, ?_⟩
    · rw [div?_tickInterval, beyond]
      rfl
    · rw [whole]
      exact sixteenth
    · rw [whole]
      rfl

/-- **What a reading says**: it is rounded only where the two times are compared. -/
theorem read_eq {t : Timer} {now : Rat} (finite : Binary64.beyondRange t.setAt = false)
    (finite' : Binary64.beyondRange now = false) :
    t.read now =
      some (UInt8.ofNat (leftAfter t.value.toNat (Binary64.round (now - t.setAt)))) := by
  have passed : elapsed? t.setAt now = some (atLeastZero (Binary64.round (now - t.setAt))) := by
    rw [elapsed?, Binary64.sub?, finite, finite']
    rfl
  have grid := Binary64.onGrid_round (now - t.setAt)
  simp only [read, remainingDelay, passed, Option.bind_eq_bind, Option.bind_some]
  generalize Binary64.round (now - t.setAt) = distance at grid ⊢
  rcases lt_or_ge distance 0 with negative | nonneg
  · obtain ⟨ticks, divided, nonneg, left⟩ := exists_ticks t.value le_rfl
      fun _ => Binary64.onGrid_intCast (n := 0) (by decide)
    rw [atLeastZero, if_pos negative, divided, Option.bind_some, countedDown_eq _ nonneg, left,
      leftAfter_of_nonpos _ le_rfl, leftAfter_of_nonpos _ negative.le]
  · obtain ⟨ticks, divided, nonneg', left⟩ := exists_ticks t.value nonneg fun _ => grid
    rw [atLeastZero, if_neg (not_lt.mpr nonneg), divided, Option.bind_some,
      countedDown_eq _ nonneg', left]

/-- What is known of the readings of a timer that was set to a value: it shows the value up to
the time it was set, never more, and less and less from then on.  It is no later with a tick
than the time of it, and hardly earlier. -/
structure CountsDown (value : Nat) (since : Rat) (left : Rat → Nat) : Prop where
  full : ∀ now, now ≤ since → left now = value
  most : ∀ now, left now ≤ value
  falls : ∀ now later, now ≤ later → left later ≤ left now
  punctual : ∀ now (ticks : Nat), since + 16 * ticks ≤ now → left now ≤ value - ticks
  early : ∀ now (ticks : Nat), 0 < ticks → ticks ≤ value → left now ≤ value - ticks →
    since + 16 * ticks ≤ now + 1 / 2 ^ 42

/-- **A timer counts down**, by clock readings of any kind. -/
theorem countsDown_leftAfter {value : Nat} (small : value < 256) (since : Rat) :
    CountsDown value since fun now => leftAfter value (Binary64.round (now - since)) where
  full now early := leftAfter_of_nonpos value (Binary64.round_nonpos (sub_nonpos.mpr early))
  most now := leftAfter_le value _
  falls now later le := leftAfter_anti value (Binary64.round_mono (sub_le_sub_right le since))
  punctual now ticks late := by
    -- more ticks than the largest value has are as good as that many
    have most : 16 * ((min ticks 256 : Nat) : Rat) ≤ Binary64.round (now - since) := by
      have less : ((min ticks 256 : Nat) : Rat) ≤ ticks := by exact_mod_cast Nat.min_le_left _ _
      have rounded := Binary64.intCast_le_round (q := now - since)
        (n := ((16 * min ticks 256 : Nat) : Int)) (by rw [Binary64.exactLimit]; omega)
        (by push_cast at less ⊢; linarith)
      push_cast at rounded ⊢
      exact rounded
    have left := leftAfter_le_sub value most
    omega
  early now ticks some most left := by
    have reached := le_passed_of_leftAfter some most left
    have first : (1 : Rat) ≤ ticks := by exact_mod_cast some
    have last : (ticks : Rat) ≤ 255 := by exact_mod_cast (by omega : ticks ≤ 255)
    rcases le_or_gt 4096 (now - since) with long | short
    · norm_num
      linarith
    · have positive : 0 < now - since := Binary64.pos_of_round_pos (by linarith)
      have rounded := Binary64.round_le_of_lt_zpow (e := 11) positive (by norm_num; exact short)
        (by decide) (Binary64.beyondRange_of_le_exactLimit (by linarith) (by linarith))
      norm_num at rounded ⊢
      linarith

end Timer

end Chip8
