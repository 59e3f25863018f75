/-
# Chip8.Number.Binary64 -- exact numbers, rounded once

Clock readings, addresses handed in from outside and coordinates are rational numbers,
and every sum, difference and quotient of two of them is the exact result rounded to the
double-precision grid: 53 significant bits, no step finer than `2 ^ -1074`, and a value
halfway between two neighbours goes to the even one.

`round` is the rule.  Whole numbers of at most `2 ^ 53` in size are on the grid
(`round_intCast`), so on them `add` and `sub?` are plain sums and differences
(`add_intCast`, `sub?_intCast`).

The grid ends on either side with a number that stands for all that lie farther out,
`infinity` and its negative, and `beyondRange` says which values those are.  Whatever has
got there stays: a finite number added or taken away does not bring it back.  How far the
same end is from itself has no answer, so `sub?` and `div?` are partial.
-/
set_option autoImplicit false

namespace Chip8.Binary64

/-! ## Rounding to a grid -/

/-- Nearest whole number; a half goes to the even neighbour. -/
def nearestEven (q : Rat) : Int :=
  let k := q.floor
  let rest := q - k
  if rest < 1 / 2 then k
  else if 1 / 2 < rest then k + 1
  else k + k % 2

/-- The exponent `e` with `2 ^ e ≤ n / d < 2 ^ (e + 1)`, for positive `n` and `d`. -/
def floorLog2 (n d : Nat) : Int :=
  let e : Int := (n.log2 : Int) - d.log2
  let reached := if 0 ≤ e then d <<< e.toNat ≤ n else d ≤ n <<< (-e).toNat
  if reached then e else e - 1

/-- `2 ^ e`, for an exponent of either sign. -/
def twoPow (e : Int) : Rat :=
  if 0 ≤ e then (Nat.pow 2 e.toNat : Rat) else mkRat 1 (Nat.pow 2 (-e).toNat)

/-- The distance between neighbours on the double-precision grid around `q`. -/
def spacing (q : Rat) : Rat :=
  twoPow (max (floorLog2 q.num.natAbs q.den - 52) (-1074))

/-- Whole numbers up to this size, `2 ^ 53`, are on the grid. -/
def exactLimit : Nat := 9007199254740992

/-! ## The ends of the grid -/

/-- The size from which on a value is infinite, `(2 ^ 54 - 1) * 2 ^ 970`: half a step above
the largest finite one. -/
@[irreducible] def rangeEnd : Nat := 18014398509481983 * Nat.pow 2 970

/-- Whether a value is so large that double precision calls it infinite. -/
def beyondRange (q : Rat) : Bool := (rangeEnd : Rat) ≤ q || q ≤ -(rangeEnd : Rat)

/-- The upper end of the grid, `2 ^ 1024`. -/
def infinity : Rat := (Nat.pow 2 1024 : Rat)

/-- The grid member nearest to `q`. -/
def round (q : Rat) : Rat :=
  if q.den = 1 ∧ q.num.natAbs ≤ exactLimit then q
  else if beyondRange q then if q < 0 then -infinity else infinity
  else (nearestEven (q / spacing q) : Rat) * spacing q

/-- The grid member nearest to `q`, if that is finite. -/
def roundFinite? (q : Rat) : Option Rat := if beyondRange q then none else some (round q)

/-! ## Arithmetic -/

/-- The sum; an infinite part is the whole of it. -/
def add (a b : Rat) : Rat :=
  if beyondRange a then a else if beyondRange b then b else round (a + b)

/-- The difference, except of an end of the grid and itself. -/
def sub? (a b : Rat) : Option Rat :=
  if beyondRange a then if a = b then none else some a
  else if beyondRange b then some (-b)
  else some (round (a - b))

/-- The quotient.  A divisor of zero stands for a vanishing one, a negative one if
`fromBelow`, so the quotient is infinite; zero has no quotient by zero, and no end of the
grid one by another. -/
def div? (a b : Rat) (fromBelow : Bool) : Option Rat :=
  if b = 0 then
    if a = 0 then none else some (if decide (a < 0) == fromBelow then infinity else -infinity)
  else if beyondRange a then
    if beyondRange b then none else some (if b < 0 then -a else a)
  else if beyondRange b then some 0
  else some (round (a / b))

theorem beyondRange_intCast {n : Int} (inside : n.natAbs < rangeEnd) :
    beyondRange (n : Rat) = false := by
  have below : ¬ (rangeEnd : Rat) ≤ n := by
    rw [← Rat.intCast_natCast, Rat.intCast_le_intCast]
    omega
  have above : ¬ (n : Rat) ≤ -(rangeEnd : Rat) := by
    rw [← Rat.intCast_natCast, ← Rat.intCast_neg, Rat.intCast_le_intCast]
    omega
  rw [beyondRange, decide_eq_false below, decide_eq_false above]
  rfl

theorem beyondRange_natCast {n : Nat} (inside : n < rangeEnd) :
    beyondRange (n : Rat) = false :=
  beyondRange_intCast (n := n) inside

theorem exactLimit_lt_rangeEnd : exactLimit < rangeEnd := by decide +kernel

theorem round_intCast {n : Int} (small : n.natAbs ≤ exactLimit) : round (n : Rat) = n := by
  simp [round, small]

theorem round_natCast {n : Nat} (small : n ≤ exactLimit) : round (n : Rat) = n :=
  round_intCast (n := n) small

theorem add_intCast {a b : Int} (ha : a.natAbs < rangeEnd) (hb : b.natAbs < rangeEnd)
    (small : (a + b).natAbs ≤ exactLimit) : add a b = ((a + b : Int) : Rat) := by
  rw [add, beyondRange_intCast ha, beyondRange_intCast hb, ← Rat.intCast_add,
    round_intCast small]
  rfl

theorem add_natCast {a b : Nat} (small : a + b ≤ exactLimit) :
    add a b = ((a + b : Nat) : Rat) := by
  have inside := exactLimit_lt_rangeEnd
  rw [add, beyondRange_natCast (n := a) (by omega), beyondRange_natCast (n := b) (by omega),
    ← Rat.natCast_add, round_natCast small]
  rfl

theorem sub?_intCast {a b : Int} (ha : a.natAbs < rangeEnd) (hb : b.natAbs < rangeEnd)
    (small : (a - b).natAbs ≤ exactLimit) : sub? a b = some ((a - b : Int) : Rat) := by
  rw [sub?, beyondRange_intCast ha, beyondRange_intCast hb, ← Rat.intCast_sub,
    round_intCast small]
  rfl

/-! ## Exact readings -/

theorem two_mul_exactLimit_lt_rangeEnd : 2 * exactLimit < rangeEnd := by decide +kernel

theorem beyondRange_exact {now : Int} (low : -9007199254740992 ≤ now)
    (high : now ≤ 9007199254740992) : beyondRange (now : Rat) = false := by
  have inside := exactLimit_lt_rangeEnd
  rw [exactLimit] at inside
  exact beyondRange_intCast (by omega)

/-- Exact readings that are not too far apart have an exact distance. -/
theorem sub?_exact {since now : Int} (low : -9007199254740992 ≤ since) (order : since ≤ now)
    (high : now ≤ 9007199254740992) (near : now - since ≤ 9007199254740992) :
    sub? (now : Rat) (since : Rat) = some ((now - since : Int) : Rat) := by
  have inside := exactLimit_lt_rangeEnd
  rw [exactLimit] at inside
  exact sub?_intCast (by omega) (by omega) (by rw [exactLimit]; omega)

/-- A wait of some milliseconds from an exact reading to another. -/
theorem add_exact {now : Int} {ms : Nat} (low : -9007199254740992 ≤ now)
    (high : now + ms ≤ 9007199254740992) :
    add (now : Rat) (ms : Rat) = ((now + ms : Int) : Rat) := by
  have inside := two_mul_exactLimit_lt_rangeEnd
  rw [exactLimit] at inside
  exact add_intCast (b := (ms : Int)) (by omega) (by omega) (by rw [exactLimit]; omega)

/-- The reading at the start, no milliseconds later. -/
theorem reading_zero (start : Int) : ((start + (0 : Nat) : Int) : Rat) = (start : Rat) :=
  congrArg (fun time : Int => (time : Rat)) (Int.add_zero start)

/-- The reading a millisecond later. -/
theorem reading_succ (now : Int) : ((now + 1 : Int) : Rat) = (now : Rat) + 1 :=
  Rat.intCast_add now 1

end Chip8.Binary64
