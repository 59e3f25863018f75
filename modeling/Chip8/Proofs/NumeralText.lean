/-
# Chip8.Proofs.NumeralText -- what numerals read as

A text is its trimmed text with blanks around it (`exists_surrounded_trim`), and these do not
matter where it is trimmed (`trim_surrounded`).  A numeral is read from the trimmed text
(`read_surrounded`).

A whole number written in decimal digits (`IsDecimal`) is read back as that number, up to
`2 ^ 53` exactly (`read_of_isDecimal`): zeros in front are dropped, and then there are no more
than sixteen digits.  Whatever text is read, the number is finite (`finite_of_read`), because
it has been rounded from one that is.
-/
import Chip8.Number.Numeral
import Chip8.Proofs.Rounding
import Mathlib.Data.List.TakeWhile

set_option autoImplicit false

namespace Chip8

/-! ## Blanks -/

/-- Nothing but blanks. -/
def Blank (text : List Char) : Prop := ∀ c ∈ text, isBlank c = true

instance (text : List Char) : Decidable (Blank text) :=
  decidable_of_iff (text.all isBlank = true) List.all_eq_true

theorem trim_append_blank (text : List Char) {after : List Char} (blank : Blank after) :
    trim (text ++ after) = trim text := by
  rw [trim, trim, List.dropWhile_append]
  split
  · rename_i none
    rw [List.isEmpty_iff.mp none, List.dropWhile_eq_nil_iff.mpr blank]
  · rw [List.reverse_append, List.dropWhile_append_of_pos]
    intro c member
    exact blank c (List.mem_reverse.mp member)

/-- Blanks around a text are taken off with its own. -/
theorem trim_surrounded {before after : List Char} (text : List Char) (left : Blank before)
    (right : Blank after) : trim (before ++ text ++ after) = trim text := by
  rw [trim_append_blank _ right, trim, trim, List.dropWhile_append_of_pos left]

theorem trim_eq_nil_iff {text : List Char} : trim text = [] ↔ Blank text := by
  constructor
  · intro nothing
    rw [trim, List.reverse_eq_nil_iff, List.dropWhile_eq_nil_iff] at nothing
    -- what is left after the blanks in front starts with another character, or is empty
    cases rest : text.dropWhile isBlank with
    | nil => exact List.dropWhile_eq_nil_iff.mp rest
    | cons c others =>
      rw [rest] at nothing
      have blank : isBlank c = true := nothing c (by simp)
      have first := List.head?_dropWhile_not isBlank text
      rw [rest, List.head?_cons] at first
      simp [blank] at first
  · intro blank
    rw [trim, List.dropWhile_eq_nil_iff.mpr blank]
    rfl

/-- A text is its trimmed text with blanks around it. -/
theorem exists_surrounded_trim (text : List Char) :
    ∃ before after, Blank before ∧ Blank after ∧ text = before ++ trim text ++ after := by
  let rest := text.dropWhile isBlank
  refine ⟨text.takeWhile isBlank, (rest.reverse.takeWhile isBlank).reverse, ?_, ?_, ?_⟩
  · intro c member
    exact List.mem_takeWhile_imp member
  · intro c member
    exact List.mem_takeWhile_imp (List.mem_reverse.mp member)
  · have back : trim text ++ (rest.reverse.takeWhile isBlank).reverse = rest := by
      rw [trim, ← List.reverse_append, List.takeWhile_append_dropWhile, List.reverse_reverse]
    rw [List.append_assoc, back, List.takeWhile_append_dropWhile]

theorem isBlank_eq_false_of_isDigit {c : Char} (digit : c.isDigit = true) :
    isBlank c = false := by
  have ends : '0'.toNat = 48 ∧ '9'.toNat = 57 := ⟨rfl, rfl⟩
  rw [Char.isDigit_iff_toNat] at digit
  simp [isBlank, blankCodes]
  omega

namespace Numeral

/-- Blanks around a numeral do not matter. -/
theorem read_surrounded {before after : List Char} (text : List Char) (left : Blank before)
    (right : Blank after) : read (before ++ text ++ after) = read text := by
  rw [read, read, trim_surrounded text left right]

/-! ## Decimal digits -/

/-- A whole number in decimal digits, perhaps with zeros in front. -/
structure IsDecimal (digits : List Char) (n : Nat) : Prop where
  nonempty : digits ≠ []
  digit : ∀ c ∈ digits, c.isDigit = true
  value : Nat.ofDigitChars 10 digits 0 = n

theorem isDecimal_toDigits (n : Nat) : IsDecimal (Nat.toDigits 10 n) n where
  nonempty := Nat.toDigits_ne_nil
  digit := fun _ member => Nat.isDigit_of_mem_toDigits (by decide) (by decide) member
  value := Nat.ofDigitChars_ten_toDigits

/-- Zeros in front of digits add nothing. -/
theorem ofDigitChars_dropWhile_zero (digits : List Char) :
    Nat.ofDigitChars 10 (digits.dropWhile (· == '0')) 0 = Nat.ofDigitChars 10 digits 0 := by
  induction digits with
  | nil => rfl
  | cons c rest ih =>
    by_cases zero : c = '0'
    · subst zero
      rw [List.dropWhile_cons_of_pos (by rfl), ih, Nat.ofDigitChars_cons]
      rfl
    · rw [List.dropWhile_cons_of_neg (by simpa using zero)]

/-- Each digit behind a number makes it ten times as large, at least. -/
theorem mul_pow_le_ofDigitChars (digits : List Char) (before : Nat) :
    before * 10 ^ digits.length ≤ Nat.ofDigitChars 10 digits before := by
  induction digits generalizing before with
  | nil => simp
  | cons c rest ih =>
    rw [Nat.ofDigitChars_cons]
    calc before * 10 ^ (rest.length + 1) = 10 * before * 10 ^ rest.length := by ring
      _ ≤ (10 * before + (c.toNat - '0'.toNat)) * 10 ^ rest.length :=
        Nat.mul_le_mul_right _ (Nat.le_add_right _ _)
      _ ≤ _ := ih _

/-- Without zeros in front a number below a power of ten has no more digits than that. -/
theorem length_le_of_lt_pow {digits : List Char} {n k : Nat}
    (digit : ∀ c ∈ digits, c.isDigit = true) (value : Nat.ofDigitChars 10 digits 0 = n)
    (below : n < 10 ^ k) : (digits.dropWhile (· == '0')).length ≤ k := by
  rw [← ofDigitChars_dropWhile_zero] at value
  have first := List.head?_dropWhile_not (· == '0') digits
  have part : ∀ c ∈ digits.dropWhile (· == '0'), c ∈ digits := fun c member =>
    (List.dropWhile_sublist _).subset member
  cases rest : digits.dropWhile (· == '0') with
  | nil => exact Nat.zero_le k
  | cons c others =>
    rw [rest] at value first part
    have here := digit c (part c List.mem_cons_self)
    rw [Char.isDigit_iff_toNat] at here
    have nonzero : c.toNat ≠ '0'.toNat := by
      intro zero
      have same : c = '0' := Char.toNat_inj.mp zero
      simp [same] at first
    have leading : 1 ≤ 10 * 0 + (c.toNat - '0'.toNat) := by
      have zero : '0'.toNat = 48 := rfl
      omega
    rw [Nat.ofDigitChars_cons] at value
    have size : 10 ^ others.length < 10 ^ k := by
      calc 10 ^ others.length
          ≤ (10 * 0 + (c.toNat - '0'.toNat)) * 10 ^ others.length :=
            Nat.le_mul_of_pos_left _ leading
        _ ≤ n := value ▸ mul_pow_le_ofDigitChars others _
        _ < 10 ^ k := below
    exact (Nat.pow_lt_pow_iff_right (by decide)).mp size

/-! ## Reading whole numbers -/

theorem scaled_of_le {n digits : Nat} (few : digits ≤ 16) (small : n ≤ Binary64.exactLimit) :
    scaled n digits 0 = some (n : Rat) := by
  have inside : Binary64.beyondRange (n : Rat) = false :=
    Binary64.beyondRange_natCast (small.trans_lt Binary64.exactLimit_lt_rangeEnd)
  rcases Nat.eq_zero_or_pos n with rfl | positive
  · simp [scaled]
  · rw [scaled, if_neg (by omega), if_neg (by omega), if_pos le_rfl]
    simp [Binary64.roundFinite?, inside, Binary64.round_natCast small]

/-- No digit announces a base. -/
theorem baseOf?_of_isDigit {c : Char} (digit : c.isDigit = true) : baseOf? c = none := by
  have other : ∀ letter : Char, letter.isDigit = false → c ≠ letter := by
    rintro letter plain rfl
    rw [digit] at plain
    cases plain
  simp [baseOf?, other 'x' (by decide), other 'X' (by decide), other 'o' (by decide),
    other 'O' (by decide), other 'b' (by decide), other 'B' (by decide)]

section Digits

variable {digits : List Char} (digit : ∀ c ∈ digits, c.isDigit = true)

include digit

theorem splitSign_of_digits : splitSign digits = (false, digits) := by
  unfold splitSign
  split
  · exact absurd (digit '-' List.mem_cons_self) (by decide)
  · exact absurd (digit '+' List.mem_cons_self) (by decide)
  · rfl

theorem decimal?_of_digits (nonempty : digits ≠ []) :
    decimal? digits = some { whole := digits, fraction := [], exponent := 0 } := by
  have whole : digits.takeWhile Char.isDigit = digits := List.takeWhile_eq_self_iff.mpr digit
  have rest : digits.dropWhile Char.isDigit = [] := List.dropWhile_eq_nil_iff.mpr digit
  simp [decimal?, whole, rest, nonempty, exponent?]

theorem read_of_digits (nonempty : digits ≠ []) : read digits = signedDecimal? digits := by
  have trimmed : trim digits = digits := by
    apply trim_eq_self
    · intro c first
      exact isBlank_eq_false_of_isDigit (digit c (List.mem_of_head? first))
    · intro c last
      exact isBlank_eq_false_of_isDigit (digit c (List.mem_of_getLast? last))
  rw [read, trimmed]
  split
  · exact absurd rfl nonempty
  · rename_i c rest
    rw [baseOf?_of_isDigit (digit c (by simp))]
  · rfl

end Digits

/-- **Decimal digits read back as the number that they write**, exactly up to `2 ^ 53`. -/
theorem read_of_isDecimal {digits : List Char} {n : Nat} (decimal : IsDecimal digits n)
    (small : n ≤ Binary64.exactLimit) : read digits = some (n : Rat) := by
  obtain ⟨nonempty, digit, value⟩ := decimal
  have few : (digits.dropWhile (· == '0')).length ≤ 16 := by
    apply length_le_of_lt_pow digit value
    rw [Binary64.exactLimit] at small
    omega
  rw [read_of_digits digit nonempty, signedDecimal?, splitSign_of_digits digit]
  simp [decimal?_of_digits digit nonempty, Decimal.value?, ofDigitChars_dropWhile_zero, value,
    scaled_of_le few small]

/-! ## Reading any text -/

theorem finite_of_roundFinite? {q r : Rat} (rounded : Binary64.roundFinite? q = some r) :
    Binary64.beyondRange r = false := by
  rw [Binary64.roundFinite?] at rounded
  split at rounded
  · cases rounded
  · rename_i inside
    cases rounded
    exact Binary64.beyondRange_round (by simpa using inside)

theorem finite_of_scaled {n digits : Nat} {e : Int} {q : Rat} (value : scaled n digits e = some q) :
    Binary64.beyondRange q = false := by
  unfold scaled at value
  split at value
  · cases value
    exact Binary64.beyondRange_zero
  split at value
  · cases value
  · exact finite_of_roundFinite? value

theorem finite_of_signedDecimal? {text : List Char} {q : Rat}
    (value : signedDecimal? text = some q) : Binary64.beyondRange q = false := by
  rw [signedDecimal?] at value
  generalize splitSign text = parts at value
  obtain ⟨negative, rest⟩ := parts
  obtain ⟨d, -, value⟩ := Option.bind_eq_some_iff.mp value
  obtain ⟨size, scaled, rfl⟩ := Option.map_eq_some_iff.mp value
  have finite : Binary64.beyondRange size = false := finite_of_scaled scaled
  split
  · rwa [Binary64.beyondRange_neg]
  · exact finite

/-- **A numeral is a finite number**, whatever the text. -/
theorem finite_of_read {text : List Char} {q : Rat} (value : read text = some q) :
    Binary64.beyondRange q = false := by
  rw [read] at value
  split at value
  · cases value
    exact Binary64.beyondRange_zero
  · split at value
    · split at value
      · cases value
      · obtain ⟨n, -, rounded⟩ := Option.bind_eq_some_iff.mp value
        exact finite_of_roundFinite? rounded
    · exact finite_of_signedDecimal? value
  · exact finite_of_signedDecimal? value

end Numeral

end Chip8
