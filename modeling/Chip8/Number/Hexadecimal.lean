/-
# Chip8.Number.Hexadecimal -- base-16 text of a number

`text` writes a number in base 16: a sign, the whole part without leading zeros, and the
fraction, digit by digit, until nothing is left of it.  A double-precision number always
gets there, since its denominator is a power of two.  An infinite number is written as a
word.  `padded` fills the text up with zeros in front of everything, the sign included, and
`upper` writes the letters in capitals.  Whole numbers have the usual digits
(`text_natCast`).
-/
import Chip8.Number.Binary64
import Chip8.Text.Blank

set_option autoImplicit false

namespace Chip8.Hexadecimal

/-- The first `count` base-16 digits of `n / d`, for `n < d`, ending where the rest is zero. -/
def fractionDigits : Nat → Nat → Nat → List Char
  | 0, _, _ => []
  | count + 1, n, d =>
    if n = 0 then [] else Nat.digitChar (16 * n / d) :: fractionDigits count (16 * n % d) d

/-- Base-16 digits of the size of a number. -/
def magnitudeDigits (n d : Nat) : List Char :=
  let fraction := fractionDigits d.log2 (n % d) d
  Nat.toDigits 16 (n / d) ++ if fraction.isEmpty then [] else '.' :: fraction

def text (q : Rat) : String :=
  let digits :=
    if Binary64.beyondRange q then "Infinity".toList else magnitudeDigits q.num.natAbs q.den
  String.ofList (if q < 0 then '-' :: digits else digits)

def padded (width : Nat) (q : Rat) : String := padLeft width '0' (text q)

def upper (width : Nat) (q : Rat) : String :=
  String.ofList ((padded width q).toList.map Char.toUpper)

/-- Eight lower-case digits of a 32-bit word. -/
def ofWord32 (w : UInt32) : String := padded 8 (w.toNat : Rat)

/-- Two lower-case digits of a byte. -/
def ofByte (b : UInt8) : String := padded 2 (b.toNat : Rat)

theorem text_natCast {n : Nat} (inside : n < Binary64.rangeEnd) :
    text (n : Rat) = String.ofList (Nat.toDigits 16 n) := by
  have h : ¬ (n : Rat) < 0 := Rat.not_lt.mpr (by exact_mod_cast Nat.zero_le n)
  simp [text, magnitudeDigits, fractionDigits, h, Binary64.beyondRange_natCast inside,
    show Nat.log2 1 = 0 from rfl]

end Chip8.Hexadecimal
