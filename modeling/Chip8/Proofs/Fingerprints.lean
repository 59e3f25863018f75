/-
# Chip8.Proofs.Fingerprints -- a single difference shows in the fingerprint

A fingerprint takes bytes in one after another.  The prime is odd, so it has an inverse modulo
`2 ^ 32` and multiplication by it loses nothing (`mul_prime_inj`); nor does exclusive or.  So a
byte keeps different words different (`mix_left_inj`), and different bytes make different words
of one (`mix_right_inj`).  Two sequences that differ at one place have the same word up to there;
that place gives them two words, and whatever follows keeps these apart (`ofList_ne`).

The text of a fingerprint is the eight digits of its word (`toList_text`), and different words
have different texts (`text_inj`).
-/
import Chip8.Proofs.DigitText
import Chip8.Proofs.Sprite
import Chip8.Screen.Fingerprint
import Mathlib.Logic.ExistsUnique
import Mathlib.Tactic.ByContra

set_option autoImplicit false

namespace Chip8.Fingerprint

/-! ## One byte -/

/-- The inverse of the prime modulo `2 ^ 32`. -/
def primeInverse : UInt32 := 0x359c449b

theorem prime_mul_primeInverse : prime * primeInverse = 1 := by decide

theorem mul_prime_inj {h k : UInt32} : h * prime = k * prime ↔ h = k := by
  constructor
  · intro same
    calc h = h * prime * primeInverse := by
          rw [UInt32.mul_assoc, prime_mul_primeInverse, UInt32.mul_one]
      _ = k * prime * primeInverse := by rw [same]
      _ = k := by rw [UInt32.mul_assoc, prime_mul_primeInverse, UInt32.mul_one]
  · rintro rfl
    rfl

/-- **A byte keeps words apart.** -/
theorem mix_left_inj {h k : UInt32} {b : UInt8} : mix h b = mix k b ↔ h = k := by
  rw [mix, mix, mul_prime_inj, UInt32.xor_left_inj]

/-- **Different bytes make different words of one.** -/
theorem mix_right_inj {h : UInt32} {b c : UInt8} : mix h b = mix h c ↔ b = c := by
  rw [mix, mix, mul_prime_inj, UInt32.xor_right_inj, UInt8.toUInt32_inj]

/-! ## Sequences of bytes -/

theorem foldl_mix_inj (bytes : List UInt8) {h k : UInt32} :
    bytes.foldl mix h = bytes.foldl mix k ↔ h = k := by
  induction bytes generalizing h k with
  | nil => rfl
  | cons b bytes ih => rw [List.foldl_cons, List.foldl_cons, ih, mix_left_inj]

/-- Two sequences of one length that differ at exactly one place. -/
def OneApart {α : Type} (l l' : List α) : Prop :=
  l.length = l'.length ∧ ∃! k : Nat, l[k]? ≠ l'[k]?

/-- What is before that place and what is behind it are the same. -/
theorem OneApart.split {α : Type} {l l' : List α} (apart : OneApart l l') :
    ∃ front b c back, b ≠ c ∧ l = front ++ b :: back ∧ l' = front ++ c :: back := by
  obtain ⟨length, k, differ, only⟩ := apart
  have alike : ∀ j, j ≠ k → l[j]? = l'[j]? := by
    intro j other
    by_contra different
    exact other (only j different)
  have inside : k < l.length := by
    by_contra outside
    rw [List.getElem?_eq_none (by omega), List.getElem?_eq_none (by omega)] at differ
    exact differ rfl
  have inside' : k < l'.length := length ▸ inside
  have front : l.take k = l'.take k := by
    apply List.ext_getElem?
    intro j
    rw [List.getElem?_take, List.getElem?_take]
    split
    · exact alike j (by omega)
    · rfl
  have back : l.drop (k + 1) = l'.drop (k + 1) := by
    apply List.ext_getElem?
    intro j
    rw [List.getElem?_drop, List.getElem?_drop]
    exact alike _ (by omega)
  rw [List.getElem?_eq_getElem inside, List.getElem?_eq_getElem inside'] at differ
  refine ⟨l.take k, l[k], l'[k], l.drop (k + 1), fun same => differ (congrArg some same), ?_, ?_⟩
  · rw [List.getElem_cons_drop, List.take_append_drop]
  · rw [front, back, List.getElem_cons_drop, List.take_append_drop]

/-- **Byte sequences that differ at one place have different fingerprints.** -/
theorem ofList_ne {bytes bytes' : List UInt8} (apart : OneApart bytes bytes') :
    ofList bytes ≠ ofList bytes' := by
  obtain ⟨front, b, c, back, differ, rfl, rfl⟩ := apart.split
  rw [ofList, ofList, List.foldl_append, List.foldl_append, List.foldl_cons, List.foldl_cons]
  intro same
  exact differ (mix_right_inj.mp ((foldl_mix_inj back).mp same))

/-! ## Texts -/

theorem toList_text (h : UInt32) :
    (text h).toList = Hexadecimal.spelled Nat.digitChar 8 h.toNat := by
  have small : h.toNat < 16 ^ 8 := h.toNat_lt
  have inside : 16 ^ 8 < Binary64.rangeEnd :=
    Nat.lt_trans (by decide) Binary64.exactLimit_lt_rangeEnd
  exact Hexadecimal.padded_natCast small (Nat.lt_trans small inside)

/-- **Different words have different texts.** -/
theorem text_inj {h k : UInt32} : text h = text k ↔ h = k := by
  have small : ∀ word : UInt32, word.toNat < 16 ^ 8 := fun word => word.toNat_lt
  rw [← String.toList_inj, toList_text, toList_text,
    Hexadecimal.spelled_inj Hexadecimal.digitValue?_digitChar (small h) (small k),
    UInt32.toNat_inj]

theorem digitChar_mem : ∀ d < 16, Nat.digitChar d ∈ "0123456789abcdef".toList := by decide

/-! ## Grids -/

/-- The cells of a grid as bytes, row by row. -/
def cellBytes (g : Grid) : List UInt8 := g.toList.map cellByte

theorem ofGrid_eq (g : Grid) : ofGrid g = ofList (cellBytes g) := by
  rw [ofGrid, ofList, cellBytes, List.foldl_map, ← Array.foldl_toList]
  rfl

theorem cellByte_inj {on on' : Bool} : cellByte on = cellByte on' ↔ on = on' := by
  cases on <;> cases on' <;> decide

theorem getElem?_cellBytes (g : Grid) (place : Fin 2048) :
    (cellBytes g)[place.val]? = some (cellByte (g.get place)) := by
  simp [cellBytes, Vector.get]

theorem length_cellBytes (g : Grid) : (cellBytes g).length = 2048 := by
  simp [cellBytes]

/-- Grids that differ in one cell differ in one byte. -/
theorem oneApart_cellBytes {g g' : Grid} (apart : ∃! place, g.get place ≠ g'.get place) :
    OneApart (cellBytes g) (cellBytes g') := by
  obtain ⟨place, differ, only⟩ := apart
  refine ⟨by rw [length_cellBytes, length_cellBytes], place.val, ?_, ?_⟩
  · simp only [getElem?_cellBytes]
    intro same
    exact differ (cellByte_inj.mp (Option.some.inj same))
  · intro k different
    have inside : k < 2048 := by
      by_contra outside
      apply different
      rw [List.getElem?_eq_none (by rw [length_cellBytes]; omega),
        List.getElem?_eq_none (by rw [length_cellBytes]; omega)]
    apply Fin.val_eq_of_eq (i := ⟨k, inside⟩)
    apply only
    intro same
    apply different
    rw [getElem?_cellBytes g ⟨k, inside⟩, getElem?_cellBytes g' ⟨k, inside⟩, same]

/-- **A single difference shows in the fingerprint.**  Grids that differ in exactly one cell,
wherever it is, have different fingerprints.  A fingerprint of a grid is always written in
exactly eight lower-case base-16 digits.  And so in general: byte sequences of one length that
differ at exactly one place have different fingerprints. -/
theorem single_difference_shows :
    (∀ g g' : Grid, (∃! place, g.get place ≠ g'.get place) → g.hash ≠ g'.hash) ∧
    (∀ g : Grid, g.hash.length = 8 ∧ ∀ c ∈ g.hash.toList, c ∈ "0123456789abcdef".toList) ∧
    ∀ bytes bytes' : List UInt8, OneApart bytes bytes' →
      text (ofList bytes) ≠ text (ofList bytes') := by
  refine ⟨?_, ?_, ?_⟩
  · intro g g' apart same
    have words : ofGrid g = ofGrid g' := text_inj.mp same
    rw [ofGrid_eq, ofGrid_eq] at words
    exact ofList_ne (oneApart_cellBytes apart) words
  · intro g
    constructor
    · rw [← String.length_toList, Grid.hash, toList_text, Hexadecimal.length_spelled]
    · intro c member
      rw [Grid.hash, toList_text] at member
      obtain ⟨d, small, rfl⟩ := Hexadecimal.mem_spelled member
      exact digitChar_mem d small
  · intro bytes bytes' apart same
    exact ofList_ne apart (text_inj.mp same)

/-- The last cell of a blank grid, which no byte follows, and the first of three bytes. -/
theorem single_difference_shows_lastCell :
    let g : Grid := Grid.blank.set 2047 true
    (∃! place, Vector.get Grid.blank place ≠ g.get place) ∧ Grid.blank.hash ≠ g.hash ∧
      OneApart ([0, 1, 2] : List UInt8) [255, 1, 2] ∧
      text (ofList [0, 1, 2]) ≠ text (ofList [255, 1, 2]) := by
  intro g
  have cells : ∀ place, Vector.get Grid.blank place ≠ g.get place ↔ place = 2047 := by
    intro place
    have here : g.get place = if place = 2047 then true else Vector.get Grid.blank place :=
      Grid.get_set Grid.blank 2047 place true
    rw [here, Grid.get_blank]
    split <;> simp_all
  have grids : ∃! place, Vector.get Grid.blank place ≠ g.get place :=
    ⟨2047, (cells 2047).mpr rfl, fun place => (cells place).mp⟩
  have bytes : OneApart ([0, 1, 2] : List UInt8) [255, 1, 2] := by
    refine ⟨rfl, 0, by decide, ?_⟩
    rintro (_ | k) differ
    · rfl
    · exact absurd rfl differ
  exact ⟨grids, single_difference_shows.1 _ _ grids, bytes,
    single_difference_shows.2.2 _ _ bytes⟩

end Chip8.Fingerprint
