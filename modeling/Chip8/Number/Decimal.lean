/-
# Chip8.Number.Decimal -- base-10 text of a number

`shortest` finds, for a positive number, the fewest significant digits that read back as
that number in double precision: it tries one digit, two, and so on, and on each decimal
grid looks at the two neighbours of the number.  Of two neighbours that read back it takes
the nearer one, and the even one of two equally near.

`text` writes those digits positionally from `10 ^ -7` up to `10 ^ 21` and with a power of
ten outside that range, and an infinite number as a word.
-/
import Chip8.Number.Binary64

set_option autoImplicit false

namespace Chip8.Decimal

/-! ## The fewest digits that read back -/

/-- `10 ^ e`, for an exponent of either sign. -/
def tenPow (e : Int) : Rat :=
  if 0 ≤ e then (Nat.pow 10 e.toNat : Rat) else mkRat 1 (Nat.pow 10 (-e).toNat)

/-- The exponent `e` with `10 ^ e ≤ q < 10 ^ (e + 1)`, for positive `q`. -/
def floorLog10 (q : Rat) : Int :=
  if 1 ≤ q then ((Nat.toDigits 10 q.floor.toNat).length : Int) - 1
  else
    let e : Int := -((Nat.toDigits 10 (1 / q).floor.toNat).length : Int)
    if tenPow (e + 1) ≤ q then e + 1 else e

/-- The neighbour of `q` on the grid of multiples of `step` that reads back as `q`. -/
def readsBack? (q step : Rat) : Option Nat :=
  let low := (q / step).floor.toNat
  let high := low + 1
  let lowReads := Binary64.round (low * step) = q
  let highReads := Binary64.round (high * step) = q
  let below := q / step - low
  if lowReads ∧ highReads then
    if below < 1 / 2 then some low
    else if 1 / 2 < below then some high
    else some (if low % 2 = 0 then low else high)
  else if lowReads then some low
  else if highReads then some high
  else none

/-- A count of significant digits tried, and what is left to try. -/
def shortestFrom (q : Rat) (e : Int) : Nat → Nat → Nat × Int
  | 0, _ => (q.floor.toNat, 0)
  | left + 1, digits =>
    let unit := e + 1 - digits
    match readsBack? q (tenPow unit) with
    | some n => (n, unit)
    | none => shortestFrom q e left (digits + 1)

/-- Digits `n` and a power of ten `k` such that `n * 10 ^ k` reads back as `q`. -/
def shortest (q : Rat) : Nat × Int := shortestFrom q (floorLog10 q) 17 1

/-! ## The written form -/

/-- `10 ^ k` times the number written by `digits`: a point among or around the digits, or
a power of ten behind them. -/
def layout (digits : List Char) (k : Int) : List Char :=
  let point := digits.length + k
  if 0 ≤ k ∧ point ≤ 21 then digits ++ List.replicate k.toNat '0'
  else if 0 < point ∧ point ≤ 21 then
    digits.take point.toNat ++ '.' :: digits.drop point.toNat
  else if -6 < point ∧ point ≤ 0 then
    '0' :: '.' :: (List.replicate (-point).toNat '0' ++ digits)
  else
    let mantissa :=
      match digits with
      | first :: second :: rest => first :: '.' :: second :: rest
      | short => short
    let e := point - 1
    mantissa ++ 'e' :: (if 0 ≤ e then '+' else '-') :: Nat.toDigits 10 e.natAbs

def magnitude (q : Rat) : List Char :=
  let (n, k) := shortest q
  let digits := Nat.toDigits 10 n
  let zeros := (digits.reverse.takeWhile (· == '0')).length
  layout (digits.take (digits.length - zeros)) (k + zeros)

/-- The base-10 text of a number. -/
def text (q : Rat) : String :=
  if q.den = 1 ∧ q.num.natAbs ≤ Binary64.exactLimit then toString q.num
  else if Binary64.beyondRange q then if q < 0 then "-Infinity" else "Infinity"
  else String.ofList (if q < 0 then '-' :: magnitude (-q) else magnitude q)

end Chip8.Decimal
