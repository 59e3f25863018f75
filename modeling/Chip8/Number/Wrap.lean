/-
# Chip8.Number.Wrap -- numbers as bytes, words and signed words

A number of any size, sign or fraction becomes a value of fixed width in two steps: the
fraction is dropped (towards zero), and the whole part is taken modulo the width.
`wrapByte`, `wrapWord` and `wrapSigned32` do that for 8, 16 and 32 bits, and `remainder`
is the remainder of a division whose quotient is rounded towards zero, so it carries the
sign of the dividend.

`indexBelow?` goes the other way and wraps nothing: it says which place of a container a
number names, if it names one.
-/
set_option autoImplicit false

namespace Chip8

/-- The whole part of a number: its fraction is dropped towards zero. -/
def truncate (q : Rat) : Int := q.num.tdiv q.den

def wrapByte (q : Rat) : UInt8 := UInt8.ofNat (truncate q % 256).toNat

def wrapWord (q : Rat) : Nat := (truncate q % 65536).toNat

/-- The whole part modulo `2 ^ 32`, read as a signed number. -/
def wrapSigned32 (q : Rat) : Int := (truncate q).bmod 4294967296

/-- `a - n * t`, where `t` is the whole part of `a / n`. -/
def remainder (a : Rat) (n : Nat) : Rat := mkRat (a.num.tmod (n * a.den)) a.den

/-- The number itself, or zero in place of a negative one. -/
def atLeastZero (q : Rat) : Rat := if q < 0 then 0 else q

/-- The place among `n` that a number names: itself, if it is whole, not negative and less
than `n`. -/
def indexBelow? (n : Nat) (q : Rat) : Option (Fin n) :=
  if h : q.den = 1 ∧ 0 ≤ q.num ∧ q.num < n then some ⟨q.num.toNat, by omega⟩ else none

/-- A byte as a number. -/
def byteValue (b : UInt8) : Rat := (b.toNat : Rat)

@[simp] theorem truncate_intCast (n : Int) : truncate (n : Rat) = n := by
  simp [truncate]

@[simp] theorem truncate_natCast (n : Nat) : truncate (n : Rat) = n :=
  truncate_intCast n

theorem remainder_intCast (a : Int) (n : Nat) :
    remainder (a : Rat) n = ((a.tmod n : Int) : Rat) := by
  simp [remainder, Rat.mkRat_one]

theorem remainder_natCast (a n : Nat) : remainder (a : Rat) n = ((a % n : Nat) : Rat) :=
  remainder_intCast a n

theorem atLeastZero_natCast (n : Nat) : atLeastZero (n : Rat) = n := by
  have h : ¬ (n : Rat) < 0 := Rat.not_lt.mpr (by exact_mod_cast Nat.zero_le n)
  simp [atLeastZero, h]

theorem indexBelow?_natCast (n k : Nat) :
    indexBelow? n (k : Rat) = if h : k < n then some ⟨k, h⟩ else none := by
  unfold indexBelow?
  by_cases h : k < n <;> simp [h]

theorem indexBelow?_eq_some {n : Nat} {q : Rat} {k : Fin n} (h : indexBelow? n q = some k) :
    q = (k.val : Rat) := by
  unfold indexBelow? at h
  split at h
  · rename_i whole
    obtain rfl := Option.some.inj h
    have e : ((q.num.toNat : Nat) : Int) = q.num := Int.toNat_of_nonneg whole.2.1
    apply Rat.ext
    · exact e.symm
    · exact whole.1
  · simp at h

theorem wrapWord_natCast (n : Nat) : wrapWord (n : Rat) = n % 65536 := by
  simp [wrapWord]
  omega

theorem wrapByte_intCast (n : Int) : wrapByte (n : Rat) = UInt8.ofNat (n % 256).toNat := by
  simp [wrapByte]

theorem toNat_wrapByte_intCast (n : Int) : (wrapByte (n : Rat)).toNat = (n % 256).toNat := by
  rw [wrapByte_intCast, UInt8.toNat_ofNat']
  omega

/-- A small number is its own signed 32-bit number. -/
theorem wrapSigned32_natCast {n : Nat} (small : n < 2147483648) :
    wrapSigned32 (n : Rat) = (n : Int) := by
  rw [wrapSigned32, truncate_natCast]
  exact Int.bmod_eq_of_le (by omega) (by omega)

theorem wrapByte_byteValue (b : UInt8) : wrapByte (byteValue b) = b := by
  have h : b.toNat < 256 := b.toNat_lt
  have e : ((b.toNat : Int) % 256).toNat = b.toNat := by omega
  simp [wrapByte, byteValue, e]

end Chip8
