/-
# Chip8.Proofs.DigitText -- base-16 texts of a fixed width

`spelled digit width n` are the last `width` base-16 digits of `n`, the highest first, each
written by the character that `digit` has for it; `capitals` are these in capitals.  A whole
number that has no more digits than the width is written as just these: the digits it has,
filled up with zeros in front (`padded_natCast`, `upper_natCast`).

They read back, in letters of either case (`digits?_spelled`), so two numbers of one width have
the same text only if they are the same (`spelled_inj`, `capitals_inj`).
-/
import Chip8.Number.Hexadecimal
import Chip8.Number.Numeral
import Mathlib.Algebra.Group.Nat.Defs

set_option autoImplicit false

namespace Chip8.Hexadecimal

/-- The capital of a base-16 digit. -/
def capital (d : Nat) : Char :=
  ['0', '1', '2', '3', '4', '5', '6', '7', '8', '9', 'A', 'B', 'C', 'D', 'E', 'F'].getD d '0'

/-- The last `width` base-16 digits of `n` in capitals, the highest first. -/
def capitals : Nat → Nat → List Char
  | 0, _ => []
  | width + 1, n => capitals width (n / 16) ++ [capital (n % 16)]

/-- The last `width` base-16 digits of `n`, each written by `digit`, the highest first. -/
def spelled (digit : Nat → Char) : Nat → Nat → List Char
  | 0, _ => []
  | width + 1, n => spelled digit width (n / 16) ++ [digit (n % 16)]

/-! ## Single digits -/

theorem toUpper_digitChar : ∀ d < 16, (Nat.digitChar d).toUpper = capital d := by decide

theorem digitValue?_digitChar : ∀ d < 16, Numeral.digitValue? (Nat.digitChar d) = some d := by
  decide

theorem digitValue?_capital : ∀ d < 16, Numeral.digitValue? (capital d) = some d := by decide

/-- A capital is none of the characters around which lines are split. -/
theorem capital_ne_separator : ∀ d < 16, capital d ≠ ' ' ∧ capital d ≠ ',' := by decide

/-! ## Digits of one width -/

theorem length_spelled (digit : Nat → Char) (width n : Nat) :
    (spelled digit width n).length = width := by
  induction width generalizing n with
  | zero => rfl
  | succ width ih => rw [spelled, List.length_append, ih, List.length_singleton]

theorem mem_spelled {digit : Nat → Char} {width n : Nat} {c : Char}
    (member : c ∈ spelled digit width n) : ∃ d < 16, c = digit d := by
  induction width generalizing n with
  | zero => cases member
  | succ width ih =>
    rw [spelled, List.mem_append, List.mem_singleton] at member
    rcases member with higher | rfl
    · exact ih higher
    · exact ⟨n % 16, Nat.mod_lt n (by decide), rfl⟩

/-- Another writing of the digits, digit by digit. -/
theorem map_spelled {digit other : Nat → Char} {change : Char → Char}
    (each : ∀ d < 16, change (digit d) = other d) (width n : Nat) :
    (spelled digit width n).map change = spelled other width n := by
  induction width generalizing n with
  | zero => rfl
  | succ width ih =>
    have last := each (n % 16) (Nat.mod_lt n (by decide))
    simp [spelled, ih, last]

theorem capitals_eq_spelled (width n : Nat) : capitals width n = spelled capital width n := by
  induction width generalizing n with
  | zero => rfl
  | succ width ih => rw [capitals, spelled, ih]

theorem length_capitals (width n : Nat) : (capitals width n).length = width := by
  rw [capitals_eq_spelled, length_spelled]

theorem mem_capitals {width n : Nat} {c : Char} (member : c ∈ capitals width n) :
    ∃ d < 16, c = capital d :=
  mem_spelled (capitals_eq_spelled width n ▸ member)

/-! ## Writing -/

theorem leftpad_concat (width : Nat) (c d : Char) (text : List Char) :
    List.leftpad (width + 1) c (text ++ [d]) = List.leftpad width c text ++ [d] := by
  simp [List.leftpad]

/-- The digits of a number, filled up to a width that has room for them. -/
theorem leftpad_toDigits {width n : Nat} (fits : n < 16 ^ (width + 1)) :
    List.leftpad (width + 1) '0' (Nat.toDigits 16 n) = spelled Nat.digitChar (width + 1) n := by
  induction width generalizing n with
  | zero =>
    have single : n < 16 := fits
    rw [Nat.toDigits_of_lt_base single]
    simp [List.leftpad, spelled, Nat.mod_eq_of_lt single]
  | succ width ih =>
    have higher : n / 16 < 16 ^ (width + 1) := by
      rw [Nat.div_lt_iff_lt_mul (by decide), ← Nat.pow_succ]
      exact fits
    rw [spelled, ← ih higher]
    by_cases single : n < 16
    · -- the digits above are the zeros of an empty number
      have zero : Nat.toDigits 16 (n / 16) = ['0'] := by
        rw [Nat.div_eq_of_lt single]
        rfl
      have filled : List.leftpad (width + 1) '0' ['0'] = List.replicate (width + 1) '0' := by
        simp [List.leftpad, ← List.replicate_succ']
      rw [Nat.toDigits_of_lt_base single, zero, Nat.mod_eq_of_lt single, filled,
        ← List.nil_append [Nat.digitChar n], leftpad_concat]
      simp [List.leftpad]
    · rw [Nat.toDigits_of_base_le (by decide) (Nat.le_of_not_lt single), leftpad_concat]

/-- **A number with room in the width is written by its digits.** -/
theorem padded_natCast {width n : Nat} (fits : n < 16 ^ (width + 1))
    (inside : n < Binary64.rangeEnd) :
    (padded (width + 1) (n : Rat)).toList = spelled Nat.digitChar (width + 1) n := by
  rw [padded, padLeft, text_natCast inside, String.toList_ofList, String.toList_ofList,
    leftpad_toDigits fits]

/-- A word is far from the end of the range of numbers. -/
theorem word_lt_rangeEnd {n : Nat} (small : n < 65536) : n < Binary64.rangeEnd :=
  Nat.lt_trans small (Nat.lt_trans (by decide) Binary64.exactLimit_lt_rangeEnd)

theorem padded_word {width n : Nat} (fits : n < 16 ^ (width + 1)) (small : n < 65536) :
    padded (width + 1) (n : Rat) = String.ofList (spelled Nat.digitChar (width + 1) n) := by
  rw [← padded_natCast fits (word_lt_rangeEnd small), String.ofList_toList]

/-- A word in capitals. -/
theorem upper_natCast {width n : Nat} (fits : n < 16 ^ (width + 1)) (small : n < 65536) :
    (upper (width + 1) (n : Rat)).toList = capitals (width + 1) n := by
  rw [upper, String.toList_ofList, padded_natCast fits (word_lt_rangeEnd small),
    map_spelled toUpper_digitChar, capitals_eq_spelled]

/-! ## Reading back -/

/-- Digits written are digits read, whatever has been read before and comes after. -/
theorem digits?_spelled_append {digit : Nat → Char}
    (reads : ∀ d < 16, Numeral.digitValue? (digit d) = some d) (width n before : Nat)
    (rest : List Char) :
    Numeral.digits? 16 (spelled digit width n ++ rest) before =
      Numeral.digits? 16 rest (before * 16 ^ width + n % 16 ^ width) := by
  induction width generalizing n rest with
  | zero => simp [spelled, Nat.mod_one]
  | succ width ih =>
    have last := Nat.mod_lt n (by decide : 16 > 0)
    have split : n % 16 ^ (width + 1) = n % 16 + 16 * (n / 16 % 16 ^ width) := by
      rw [Nat.pow_succ, Nat.mul_comm, Nat.mod_mul]
    rw [spelled, List.append_assoc, List.singleton_append, ih, Numeral.digits?, reads _ last]
    simp only [last, if_true]
    congr 1
    rw [split, Nat.pow_succ, Nat.add_mul, Nat.mul_assoc]
    omega

/-- **The digits of a number that has room in the width read back as that number.** -/
theorem digits?_spelled {digit : Nat → Char}
    (reads : ∀ d < 16, Numeral.digitValue? (digit d) = some d) {width n : Nat}
    (fits : n < 16 ^ width) : Numeral.digits? 16 (spelled digit width n) 0 = some n := by
  have read := digits?_spelled_append reads width n 0 []
  rw [List.append_nil, Nat.zero_mul, Nat.zero_add, Nat.mod_eq_of_lt fits] at read
  exact read

/-- Digits that read back tell numbers of one width apart. -/
theorem spelled_inj {digit : Nat → Char}
    (reads : ∀ d < 16, Numeral.digitValue? (digit d) = some d) {width n k : Nat}
    (hn : n < 16 ^ width) (hk : k < 16 ^ width) :
    spelled digit width n = spelled digit width k ↔ n = k := by
  constructor
  · intro same
    have read := digits?_spelled reads hn
    rw [same, digits?_spelled reads hk] at read
    exact (Option.some.inj read).symm
  · rintro rfl
    rfl

theorem digits?_capitals {width n : Nat} (fits : n < 16 ^ width) :
    Numeral.digits? 16 (capitals width n) 0 = some n := by
  rw [capitals_eq_spelled, digits?_spelled digitValue?_capital fits]

theorem capitals_inj {width n k : Nat} (hn : n < 16 ^ width) (hk : k < 16 ^ width) :
    capitals width n = capitals width k ↔ n = k := by
  rw [capitals_eq_spelled, capitals_eq_spelled, spelled_inj digitValue?_capital hn hk]

end Chip8.Hexadecimal
