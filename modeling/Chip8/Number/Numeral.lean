/-
# Chip8.Number.Numeral -- reading a number from a text

A numeral is surrounded by any number of blanks and is empty (zero), a whole number in
base 16, 8 or 2 behind `0x`, `0o` or `0b`, or a decimal numeral: an optional sign, digits
with at most one point among them, and an optional power of ten.  `read` gives the
double-precision number nearest to it, and `none` for a text that is no numeral and for
one whose value is infinite.

The value is computed exactly and rounded once.  For a decimal numeral, `scaled` first
compares the number of digits with the power of ten, so that no numeral, however long its
exponent, asks for a number of more than about four hundred digits beyond those written.
-/
import Chip8.Number.Binary64
import Chip8.Text.Blank

set_option autoImplicit false

namespace Chip8.Numeral

/-! ## Digits -/

/-- The value of a digit in bases up to sixteen, letters in either case. -/
def digitValue? (c : Char) : Option Nat :=
  if c.isDigit then some (c.toNat - '0'.toNat)
  else if 'a' ≤ c ∧ c ≤ 'f' then some (c.toNat - 'a'.toNat + 10)
  else if 'A' ≤ c ∧ c ≤ 'F' then some (c.toNat - 'A'.toNat + 10)
  else none

/-- The whole number written by digits of `base`, the first digit being the highest. -/
def digits? (base : Nat) : List Char → Nat → Option Nat
  | [], n => some n
  | c :: rest, n =>
    match digitValue? c with
    | some d => if d < base then digits? base rest (n * base + d) else none
    | none => none

/-- The base announced by the letter after a leading zero. -/
def baseOf? (c : Char) : Option Nat :=
  if c = 'x' ∨ c = 'X' then some 16
  else if c = 'o' ∨ c = 'O' then some 8
  else if c = 'b' ∨ c = 'B' then some 2
  else none

/-! ## Decimal numerals -/

/-- A decimal numeral: the digits before and after the point, and the power of ten. -/
structure Decimal where
  whole : List Char
  fraction : List Char
  exponent : Int
deriving DecidableEq, Repr

/-- An optional sign and the rest; `true` for a minus. -/
def splitSign : List Char → Bool × List Char
  | '-' :: rest => (true, rest)
  | '+' :: rest => (false, rest)
  | rest => (false, rest)

/-- The power of ten that ends a decimal numeral, zero where none is written. -/
def exponent? : List Char → Option Int
  | [] => some 0
  | c :: rest =>
    if c = 'e' ∨ c = 'E' then
      let (negative, digits) := splitSign rest
      if digits.isEmpty || !digits.all Char.isDigit then none
      else
        let n : Int := Nat.ofDigitChars 10 digits 0
        some (if negative then -n else n)
    else none

/-- The parts of an unsigned decimal numeral. -/
def decimal? (text : List Char) : Option Decimal :=
  let whole := text.takeWhile Char.isDigit
  let rest := text.dropWhile Char.isDigit
  let (fraction, rest) :=
    match rest with
    | '.' :: more => (more.takeWhile Char.isDigit, more.dropWhile Char.isDigit)
    | _ => ([], rest)
  if whole.isEmpty && fraction.isEmpty then none
  else (exponent? rest).map fun exponent => { whole, fraction, exponent }

/-- `n * 10 ^ e` rounded to double precision, `n` having the given number of decimal
digits; `none` where that is infinite. -/
def scaled (n digits : Nat) (e : Int) : Option Rat :=
  if n = 0 ∨ digits + e < -400 then some 0
  else if 400 < digits + e then none
  else
    Binary64.roundFinite? <|
      if 0 ≤ e then ((n * Nat.pow 10 e.toNat : Nat) : Rat) else mkRat n (Nat.pow 10 (-e).toNat)

def Decimal.value? (d : Decimal) : Option Rat :=
  let digits := (d.whole ++ d.fraction).dropWhile (· == '0')
  scaled (Nat.ofDigitChars 10 digits 0) digits.length (d.exponent - d.fraction.length)

/-! ## Numerals -/

def signedDecimal? (text : List Char) : Option Rat :=
  let (negative, rest) := splitSign text
  (decimal? rest).bind fun d => d.value?.map fun q => if negative then -q else q

/-- The finite number that a text denotes, if it denotes one. -/
def read (text : List Char) : Option Rat :=
  match trim text with
  | [] => some 0
  | '0' :: c :: rest =>
    match baseOf? c with
    | some base =>
      if rest.isEmpty then none
      else (digits? base rest 0).bind fun n => Binary64.roundFinite? (n : Rat)
    | none => signedDecimal? ('0' :: c :: rest)
  | text => signedDecimal? text

end Chip8.Numeral
