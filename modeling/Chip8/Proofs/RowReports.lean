/-
# Chip8.Proofs.RowReports -- what drawing a row reports, and what drawing it again undoes

A row may be drawn at any whole coordinates that double precision has.  Its columns are whole
and finite then, so each of its bits comes to a cell (`cellIndex?_column`), and the cells it
turns off and on can be counted: it reports a cell turned off exactly if it leaves fewer cells
lit than it found and has set bits (`drawRow_reports_iff_lit`).  Drawn again at once it turns off
what it has turned on before and the other way round (`hitCount_again`), and the grid is as it
was (`drawRow_drawRow`).

Up to `2 ^ 53` its columns are the eight from `x` on and its bits hit what they fall on.  Beyond,
columns are rounded: a bit may come to a ninth column, and several to one cell, which they turn
on and off again (`row_far_out`).
-/
import Chip8.Proofs.Collision
import Chip8.Proofs.Rounding

set_option autoImplicit false

namespace Chip8.Grid

/-! ## Places -/

/-- A row that changes a cell has drawn a bit there. -/
theorem exists_bit_of_changed {g : Grid} {byte : UInt8} {x y : Rat} {place : Fin 2048}
    (changed : Vector.get (g.drawRow byte x y).1 place ≠ g.get place) :
    ∃ bit : Nat, bit < 8 ∧ cellIndex? (Binary64.add x bit) y = some place := by
  rw [get_drawRow] at changed
  have met : 0 < bitsOn byte x y 8 place := by
    apply Nat.pos_of_ne_zero
    intro unmet
    rw [unmet, Nat.bodd_zero, Bool.xor_false] at changed
    exact changed rfl
  obtain ⟨bit, listed, drawn⟩ := List.countP_pos_iff.mp met
  rw [Bool.and_eq_true, beq_iff_eq] at drawn
  exact ⟨bit, List.mem_range.mp listed, drawn.2⟩

/-- **A row drawn twice leaves the grid as it was.** -/
theorem drawRow_drawRow (g : Grid) (byte : UInt8) (x y : Rat) :
    ((g.drawRow byte x y).1.drawRow byte x y).1 = g := by
  apply ext_get
  intro place
  rw [get_drawRow, get_drawRow, Bool.xor_assoc, Bool.xor_self, Bool.xor_false]

theorem setBits_eq_countP (byte : UInt8) :
    setBits byte = (List.range 8).countP fun bit => byte.toNat.testBit (7 - bit) := by
  have listed : List.range 8 = [0, 1, 2, 3, 4, 5, 6, 7] := rfl
  rw [setBits, Finset.card_filter, listed]
  simp only [Finset.sum_range_succ, Finset.sum_range_zero, List.countP_cons, List.countP_nil]

section Finite

variable {x y : Nat} (number : Binary64.OnGrid (x : Rat)) (hx : x < Binary64.rangeEnd)
  (hy : y < Binary64.rangeEnd)

include number hx in
/-- The columns of a row are whole and finite. -/
theorem exists_column {bit : Nat} (inside : bit < 8) :
    ∃ column : Nat, column < Binary64.rangeEnd ∧ Binary64.add (x : Rat) bit = column := by
  have room := number.add_seven_lt_rangeEnd hx
  obtain ⟨column, finite, rounded⟩ :=
    Binary64.round_natCast_spec (by omega : x + bit < Binary64.rangeEnd)
  refine ⟨column, finite, ?_⟩
  rw [Binary64.add, Binary64.beyondRange_natCast hx,
    Binary64.beyondRange_natCast (by omega : bit < Binary64.rangeEnd), ← Rat.natCast_add]
  exact rounded

include number hx hy

/-- Each bit of a row comes to the cell in its column. -/
theorem cellIndex?_column {bit : Nat} (inside : bit < 8) :
    ∃ column : Nat, Binary64.add (x : Rat) bit = column ∧
      cellIndex? (Binary64.add (x : Rat) bit) (y : Rat) = some (placeOf column y) := by
  obtain ⟨column, finite, drawn⟩ := exists_column number hx inside
  refine ⟨column, drawn, ?_⟩
  rw [drawn]
  exact cellIndex?_natCast finite hy

variable (g : Grid) (byte : UInt8)

theorem hitCount_add_eq_setBits :
    g.hitCount byte x y true 8 + g.hitCount byte x y false 8 = setBits byte := by
  rw [setBits_eq_countP]
  apply hitCount_add
  intro bit inside
  obtain ⟨column, -, found⟩ := cellIndex?_column number hx hy inside
  rw [found]
  rfl

/-- **What a row reports can be read off the number of lit cells.** -/
theorem drawRow_reports_iff_lit :
    (g.drawRow byte x y).2 = true ↔ (g.drawRow byte x y).1.lit < g.lit + setBits byte := by
  have changed := g.lit_drawRow byte x y
  have all := hitCount_add_eq_setBits number hx hy g byte
  rw [drawRow_reports, ← hitCount_pos_iff]
  omega

/-- **Drawn again, a row turns off what it has turned on.** -/
theorem hitCount_again :
    (g.drawRow byte x y).1.hitCount byte x y true 8 = g.hitCount byte x y false 8 := by
  have first := g.lit_drawRow byte x y
  have second := (g.drawRow byte x y).1.lit_drawRow byte x y
  have all := hitCount_add_eq_setBits number hx hy g byte
  have all' := hitCount_add_eq_setBits number hx hy (g.drawRow byte x y).1 byte
  rw [drawRow_drawRow] at second
  omega

theorem drawRow_again_reports :
    ((g.drawRow byte x y).1.drawRow byte x y).2 = true ↔ g.RowHits byte x y false := by
  rw [drawRow_reports, ← hitCount_pos_iff, hitCount_again number hx hy, hitCount_pos_iff]

/-- A row changes only cells of its row and of the columns that its bits come to. -/
theorem changed_within {place : Fin 2048}
    (changed : Vector.get (g.drawRow byte x y).1 place ≠ g.get place) :
    place.val / 64 = y % 32 ∧ ∃ bit column : Nat, bit < 8 ∧
      Binary64.add (x : Rat) bit = column ∧ place.val % 64 = column % 64 := by
  obtain ⟨bit, inside, drawn⟩ := exists_bit_of_changed changed
  obtain ⟨column, reached, found⟩ := cellIndex?_column number hx hy inside
  obtain rfl := Option.some.inj (found.symm.trans drawn)
  simp only [placeOf]
  exact ⟨by omega, bit, column, inside, reached, by omega⟩

end Finite

/-- **A row reports the cells it turns off, and drawn again it undoes itself.**  Take any grid,
any byte and any whole coordinates in double precision.  Drawing reports a cell turned off exactly
if fewer cells are lit afterwards than were lit before and bits are set; that is, if a set bit
hits a lit cell in its turn.  It changes cells only in the row `y` and in the columns of its
eight bits, both wrapped.  Drawing again at once restores the grid, and reports a cell turned off
exactly if a set bit has hit a cell that was off in its turn.

In the exact range the columns are those from `x` to `x + 7`, and a bit hits what it falls on
before the row is drawn. -/
theorem row_undoes_itself (g : Grid) (byte : UInt8) {x y : Nat}
    (number : Binary64.OnGrid (x : Rat)) (hx : x < Binary64.rangeEnd)
    (hy : y < Binary64.rangeEnd) :
    let drawn := g.drawRow byte x y
    let again := drawn.1.drawRow byte x y
    (drawn.2 = true ↔ drawn.1.lit < g.lit + setBits byte) ∧
    (drawn.2 = true ↔ g.RowHits byte x y true) ∧
    (∀ place, drawn.1.get place ≠ g.get place → place.val / 64 = y % 32 ∧
      ∃ bit column : Nat, bit < 8 ∧ Binary64.add (x : Rat) bit = column ∧
        place.val % 64 = column % 64) ∧
    again.1 = g ∧
    (again.2 = true ↔ g.RowHits byte x y false) ∧
    (x + 7 ≤ Binary64.exactLimit →
      (drawn.2 = true ↔ g.FallsOn byte x y true) ∧
      (∀ place, drawn.1.get place ≠ g.get place → place.val / 64 = y % 32 ∧
        ∃ bit < 8, place.val % 64 = (x + bit) % 64) ∧
      (again.2 = true ↔ g.FallsOn byte x y false)) := by
  intro drawn again
  have reports : drawn.2 = true ↔ g.RowHits byte x y true := g.drawRow_reports
  have undone := drawRow_again_reports number hx hy g byte
  have within : ∀ place, drawn.1.get place ≠ g.get place → place.val / 64 = y % 32 ∧
      ∃ bit column : Nat, bit < 8 ∧ Binary64.add (x : Rat) bit = column ∧
        place.val % 64 = column % 64 :=
    fun _ changed => changed_within number hx hy g byte changed
  refine ⟨drawRow_reports_iff_lit number hx hy g byte, reports, within,
    drawRow_drawRow g byte x y, undone, ?_⟩
  intro exact
  refine ⟨reports.trans (rowHits_natCast exact hy g true), ?_,
    undone.trans (rowHits_natCast exact hy g false)⟩
  intro place changed
  obtain ⟨row, bit, column, inside, reached, same⟩ := within place changed
  rw [Binary64.add_natCast (by omega), Rat.natCast_inj] at reached
  exact ⟨row, bit, inside, by rw [same, reached]⟩

/-- Half of a row over the right edge, where one of the four cells is lit. -/
theorem row_undoes_itself_acrossTheEdge :
    let g := (blank.drawRow 0x18 60 0).1
    let drawn := g.drawRow 0xf0 (60 : Nat) (32 : Nat)
    let again := drawn.1.drawRow 0xf0 (60 : Nat) (32 : Nat)
    drawn.2 = true ∧ drawn.1.lit < g.lit + setBits 0xf0 ∧
      drawn.1.get (placeOf 4 0) = g.get (placeOf 4 0) ∧ again.1 = g ∧ again.2 = true := by
  intro g drawn again
  have number : Binary64.OnGrid ((60 : Nat) : Rat) :=
    Binary64.onGrid_intCast (n := 60) (by decide)
  have finite : ∀ n < 64, n < Binary64.rangeEnd := by decide +kernel
  obtain ⟨counted, -, -, restored, -, whole⟩ :=
    row_undoes_itself g 0xf0 number (finite 60 (by decide)) (finite 32 (by decide))
  obtain ⟨reports, within, undone⟩ := whole (by decide)
  have lit : g.FallsOn 0xf0 60 32 true := ⟨3, by decide, by decide, by decide +kernel⟩
  have off : g.FallsOn 0xf0 60 32 false := ⟨0, by decide, by decide, by decide +kernel⟩
  refine ⟨reports.mpr lit, counted.mp (reports.mpr lit), ?_, restored, undone.mpr off⟩
  by_contra changed
  obtain ⟨-, bit, inside, same⟩ := within _ changed
  simp only [placeOf] at same
  omega

/-- **Far out the columns of a row are rounded.**  At `2 ^ 53` the last bit of a row comes to a
ninth column, and a row whose bits fall on two lit cells alone turns a cell off when drawn
again. -/
theorem row_far_out :
    let x := 2 ^ 53
    let edge := blank.drawRow 0x01 (x : Nat) (0 : Nat)
    let g := (blank.drawRow 0xc0 (0 : Nat) (0 : Nat)).1
    let again := (g.drawRow 0xc0 (x : Nat) (0 : Nat)).1.drawRow 0xc0 (x : Nat) (0 : Nat)
    Binary64.OnGrid ((x : Nat) : Rat) ∧
      (edge.1.get (placeOf 8 0) ≠ Vector.get blank (placeOf 8 0) ∧
        ∀ bit < 8, (placeOf 8 0).val % 64 ≠ (x + bit) % 64) ∧
      again.2 = true ∧ ¬ g.FallsOn 0xc0 x 0 false := by
  intro x edge g again
  refine ⟨Binary64.onGrid_intCast (n := 2 ^ 53) (by decide), ⟨by decide +kernel, by decide⟩,
    by decide +kernel, ?_⟩
  have missed : ∀ bit < 8, (0xc0 : UInt8).toNat.testBit (7 - bit) = true →
      g.get (placeOf (x + bit) 0) = true := by decide +kernel
  rintro ⟨bit, inside, set, off⟩
  rw [missed bit inside set] at off
  cases off

end Chip8.Grid
