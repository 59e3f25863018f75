/-
# Chip8.Proofs.Collision -- what a sprite turns off, and how many cells it leaves lit

A sprite at whole coordinates with at most 32 rows meets each place of the grid once, so
nothing that an earlier row has done is in the way of a later one:

* the flag that drawing keeps is set exactly if a set bit of the sprite falls on a cell that
  was lit before all of it (`drawRows_erased`), which is then off after all of it;
* the set bits of a sprite are as many as the places they fall on (`count_spriteBit`), so
  the number of lit cells grows by one for each of them and shrinks by two for each that
  falls on a lit cell (`lit_toggled`).

Cells are counted by `Grid.count`; a number of cells is the sum of ones over them
(`count_eq_sum`), and what holds place by place holds of the sums.
-/
import Mathlib.Algebra.BigOperators.Ring.Finset
import Mathlib.Data.Fintype.Basic
import Chip8.Proofs.RowTurns

set_option autoImplicit false

namespace Chip8

namespace Grid

/-! ## Cells turned off -/

section Row

variable {x y : Nat} (hx : x + 7 ≤ Binary64.exactLimit) (hy : y < Binary64.rangeEnd)

include hx hy

/-- **A row turns a cell off exactly if a set bit of it falls on a lit cell.** -/
theorem drawRow_erased (byte : UInt8) (g : Grid) :
    (g.drawRow byte (x : Rat) (y : Rat)).2 = true ↔
      ∃ place, g.get place = true ∧ rowsFrom y place = 0 ∧ rowBit byte x place = true := by
  rw [drawRow_reports, rowHits_natCast hx hy]
  simp only [rowBit, Bool.and_eq_true, decide_eq_true_eq]
  constructor
  · rintro ⟨bit, inside, set, here⟩
    obtain ⟨row, column⟩ := (eq_placeOf_iff x y bit (by omega) _).mp rfl
    exact ⟨_, here, row, by omega, by rw [column]; exact set⟩
  · rintro ⟨place, here, row, inside, set⟩
    have same := (eq_placeOf_iff x y _ (by omega) place).mpr ⟨row, rfl⟩
    exact ⟨_, inside, set, by rw [← same]; exact here⟩

end Row

section Rows

variable {x y : Nat} {sprite : List UInt8} (hx : x + 7 ≤ Binary64.exactLimit)
  (hy : y + sprite.length ≤ Binary64.rangeEnd) (rows : sprite.length ≤ 32)

include hx hy rows

/-- **A sprite turns a cell off exactly if a set bit of it falls on a cell lit before.** -/
theorem drawRows_erased (g : Grid) (erased : Bool) :
    (drawRows (x : Rat) y (g, erased) sprite).2 = true ↔
      erased = true ∨ ∃ place, g.get place = true ∧ spriteBit sprite x y place = true := by
  induction sprite generalizing y g erased with
  | nil => simp [drawRows, spriteBit, rowBit_zero]
  | cons byte rest ih =>
    rw [List.length_cons] at hy rows
    have short : rest.length < 32 := by omega
    simp only [drawRows]
    rw [ih (by omega) (by omega), Bool.or_eq_true, drawRow_erased hx (by omega), or_assoc]
    apply or_congr Iff.rfl
    simp only [spriteBit_cons short, drawRow_natCast hx (by omega : y < Binary64.rangeEnd)]
    constructor
    · rintro (⟨place, here, first, set⟩ | ⟨place, here, set⟩)
      · exact ⟨place, here, by simp [first, set, spriteBit_below short x first]⟩
      · have lower : rowsFrom y place ≠ 0 := by
          intro first
          rw [spriteBit_below short x first] at set
          cases set
        exact ⟨place, by simpa [lower] using here, by simp [lower, set]⟩
    · rintro ⟨place, here, set⟩
      by_cases first : rowsFrom y place = 0
      · refine Or.inl ⟨place, here, first, ?_⟩
        simpa [first, spriteBit_below short x first] using set
      · refine Or.inr ⟨place, ?_, ?_⟩
        · simpa [first] using here
        · simpa [first] using set

end Rows

/-! ## Counting cells -/

section Count

variable {α : Type} [Fintype α]

/-- The number of places with a property. -/
def count (p : α → Bool) : Nat := (Finset.univ.filter fun place => p place = true).card

theorem count_eq_sum (p : α → Bool) : count p = ∑ place, (p place).toNat := by
  rw [count, Finset.card_filter]
  apply Finset.sum_congr rfl
  intro place _
  cases p place <;> rfl

/-- What adds up place by place adds up in number. -/
theorem count_add {p q r : α → Bool}
    (sum : ∀ place, (r place).toNat = (p place).toNat + (q place).toNat) :
    count r = count p + count q := by
  rw [count_eq_sum, count_eq_sum, count_eq_sum, ← Finset.sum_add_distrib]
  exact Finset.sum_congr rfl fun place _ => sum place

/-- An exclusive or has the places of both parts, but for those that are in both. -/
theorem count_xor (p q : α → Bool) :
    (count fun place => p place ^^ q place) + 2 * (count fun place => p place && q place) =
      count p + count q := by
  rw [count_eq_sum, count_eq_sum, count_eq_sum, count_eq_sum, Finset.mul_sum,
    ← Finset.sum_add_distrib, ← Finset.sum_add_distrib]
  apply Finset.sum_congr rfl
  intro place _
  cases p place <;> cases q place <;> rfl

end Count

theorem countP_toList {n : Nat} (cells : Vector Bool n) :
    cells.toList.countP id = count cells.get := by
  have listed : cells.toList = (List.finRange n).map cells.get := by
    apply List.ext_getElem
    · simp
    · intro k inside inside'
      simp [Vector.get]
  have all := (List.nodup_finRange n).card_eq_countP (P := fun place => cells.get place = true)
  rw [List.toFinset_finRange] at all
  rw [listed, List.countP_map, count, all]
  congr 1
  funext place
  simp

theorem lit_eq_count (g : Grid) : g.lit = count g.get := countP_toList g

/-! ## Counting bits -/

/-- The number of set bits of a byte. -/
def setBits (byte : UInt8) : Nat :=
  ((Finset.range 8).filter fun bit => byte.toNat.testBit bit = true).card

theorem rowBit_iff (byte : UInt8) (x y : Nat) (place : Fin 2048) :
    (decide (rowsFrom y place = 0) && rowBit byte x place) = true ↔
      rowsFrom y place = 0 ∧ columnsFrom x place < 8 ∧
        byte.toNat.testBit (7 - columnsFrom x place) = true := by
  simp only [rowBit, Bool.and_eq_true, decide_eq_true_eq]

/-- The set bits of a row are as many as the places they fall on. -/
theorem count_rowBit (byte : UInt8) (x y : Nat) :
    (count fun place => decide (rowsFrom y place = 0) && rowBit byte x place) = setBits byte := by
  have bitPlace : ∀ bit < 8, rowsFrom y (placeOf (x + (7 - bit)) y) = 0 ∧
      columnsFrom x (placeOf (x + (7 - bit)) y) = 7 - bit := by
    intro bit small
    exact (eq_placeOf_iff x y (7 - bit) (by omega) _).mp rfl
  apply Finset.card_nbij' (fun place => 7 - columnsFrom x place)
    fun bit => placeOf (x + (7 - bit)) y
  · intro place here
    rw [Finset.mem_coe, Finset.mem_filter, rowBit_iff] at here
    rw [Finset.mem_coe, Finset.mem_filter, Finset.mem_range]
    have small : 7 - columnsFrom x place < 8 := by omega
    exact ⟨small, here.2.2.2⟩
  · intro bit here
    rw [Finset.mem_coe, Finset.mem_filter, Finset.mem_range] at here
    obtain ⟨row, column⟩ := bitPlace bit here.1
    have back : 7 - (7 - bit) = bit := by omega
    rw [Finset.mem_coe, Finset.mem_filter, rowBit_iff, row, column, back]
    exact ⟨Finset.mem_univ _, rfl, by omega, here.2⟩
  · intro place here
    rw [Finset.mem_coe, Finset.mem_filter, rowBit_iff] at here
    obtain ⟨-, row, within, -⟩ := here
    have column : columnsFrom x place = 7 - (7 - columnsFrom x place) := by omega
    have few : 7 - (7 - columnsFrom x place) < 64 := by omega
    exact ((eq_placeOf_iff x y _ few place).mpr ⟨row, column⟩).symm
  · intro bit here
    rw [Finset.mem_coe, Finset.mem_filter, Finset.mem_range] at here
    obtain ⟨-, column⟩ := bitPlace bit here.1
    show 7 - columnsFrom x (placeOf (x + (7 - bit)) y) = bit
    omega

/-- **The set bits of a sprite are as many as the places they fall on.** -/
theorem count_spriteBit {sprite : List UInt8} (rows : sprite.length ≤ 32) (x y : Nat) :
    count (spriteBit sprite x y) = (sprite.map setBits).sum := by
  induction sprite generalizing y with
  | nil => simp [count, spriteBit, rowBit_zero]
  | cons byte rest ih =>
    rw [List.length_cons] at rows
    rw [List.map_cons, List.sum_cons, ← ih (by omega) (y + 1), ← count_rowBit byte x y]
    apply count_add
    intro place
    rw [spriteBit_cons (by omega)]
    by_cases first : rowsFrom y place = 0
    · simp [spriteBit_below (by omega : rest.length < 32) x first]
    · simp [first]

/-- **How many cells a sprite leaves lit.** -/
theorem lit_toggled (g : Grid) {sprite : List UInt8} (rows : sprite.length ≤ 32) (x y : Nat) :
    (g.toggled sprite x y).lit +
        2 * (count fun place => g.get place && spriteBit sprite x y place) =
      g.lit + (sprite.map setBits).sum := by
  have cells : (g.toggled sprite x y).get = fun place =>
      g.get place ^^ spriteBit sprite x y place := funext (get_toggled g sprite x y)
  rw [lit_eq_count, lit_eq_count, cells, count_xor, count_spriteBit rows]

end Grid

end Chip8
