/-
# Chip8.Proofs.PictureParity -- a picture is the parity of what was drawn on it

A picture is made by clearing it and drawing rows on it (`PictureCall`).  A cell is lit if an
odd number of set bits have been drawn on it since the last clear (`get_afterCalls`), so in
between two clears the order of the rows does not count (`afterCalls_of_perm`).  At whole
coordinates in the exact range a row has one bit at most for a cell, and the bits can be
counted row by row (`strokesOn_of_exact`).

Far out a column is rounded before it is wrapped.  There neighbouring bits of a row come to
one cell and undo each other (`picture_far_out`).

The pixel, the frame and the lines of text all show the cells of the one grid (`shows`).
-/
import Chip8.Proofs.Pixels
import Mathlib.Algebra.GroupWithZero.Nat
import Mathlib.Data.List.Induction

set_option autoImplicit false

namespace Chip8

/-! ## Calls -/

/-- A row of eight cells as it is drawn: a byte, and the column and the row it starts at. -/
structure DrawnRow where
  byte : UInt8
  x : Nat
  y : Nat

namespace DrawnRow

/-- Whether the row has a set bit for a cell, around both edges. -/
def covers (r : DrawnRow) (column : Fin 64) (row : Fin 32) : Bool :=
  let right := (column.val + 64 - r.x % 64) % 64
  decide (r.y % 32 = row.val) && decide (right < 8) && r.byte.toNat.testBit (7 - right)

/-- Whether the columns of the row are exact in double precision, and its coordinates finite. -/
def Exact (r : DrawnRow) : Prop := r.x + 7 ≤ Binary64.exactLimit ∧ r.y < Binary64.rangeEnd

instance (r : DrawnRow) : Decidable r.Exact := inferInstanceAs (Decidable (_ ∧ _))

end DrawnRow

/-- What is done to a picture. -/
inductive PictureCall where
  | clear
  | draw (row : DrawnRow)

/-- The rows drawn since the last clear, after one more call. -/
def rowsAfter (rows : List DrawnRow) : PictureCall → List DrawnRow
  | .clear => []
  | .draw row => rows ++ [row]

/-- The rows drawn since the last clear. -/
def rowsSinceClear (calls : List PictureCall) : List DrawnRow := calls.foldl rowsAfter []

namespace Grid

def afterCall (g : Grid) : PictureCall → Grid
  | .clear => blank
  | .draw row => (g.drawRow row.byte row.x row.y).1

/-- The picture after some calls. -/
def afterCalls (g : Grid) (calls : List PictureCall) : Grid := calls.foldl afterCall g

/-- The number of set bits that some rows have drawn on a place. -/
def strokesOn (place : Fin 2048) (rows : List DrawnRow) : Nat :=
  (rows.map fun row => bitsOn row.byte row.x row.y 8 place).sum

/-! ## Parity -/

theorem afterCalls_append (g : Grid) (calls later : List PictureCall) :
    g.afterCalls (calls ++ later) = (g.afterCalls calls).afterCalls later :=
  List.foldl_append

/-- Rows drawn on a picture toggle a cell as often as set bits of them are drawn there. -/
theorem get_afterRows (g : Grid) (rows : List DrawnRow) (place : Fin 2048) :
    Vector.get (g.afterCalls (rows.map .draw)) place =
      (g.get place ^^ (strokesOn place rows).bodd) := by
  induction rows generalizing g with
  | nil => simp [afterCalls, strokesOn]
  | cons row rows ih =>
    rw [List.map_cons, afterCalls, List.foldl_cons, ← afterCalls, ih, afterCall, get_drawRow,
      strokesOn, strokesOn, List.map_cons, List.sum_cons, Nat.bodd_add, Bool.xor_assoc]

/-- What came before the last clear does not count. -/
theorem afterCalls_blank (calls : List PictureCall) :
    blank.afterCalls calls = blank.afterCalls ((rowsSinceClear calls).map .draw) := by
  induction calls using List.reverseRecOn with
  | nil => rfl
  | append_singleton calls call ih =>
    have rows : rowsSinceClear (calls ++ [call]) = rowsAfter (rowsSinceClear calls) call := by
      rw [rowsSinceClear, List.foldl_append]
      rfl
    rw [afterCalls_append, ih, rows]
    cases call with
    | clear => rfl
    | draw row =>
      rw [rowsAfter, List.map_append, afterCalls_append]
      rfl

/-- **A cell is lit if an odd number of set bits have been drawn on it since the last clear.** -/
theorem get_afterCalls (calls : List PictureCall) (place : Fin 2048) :
    Vector.get (blank.afterCalls calls) place =
      (strokesOn place (rowsSinceClear calls)).bodd := by
  rw [afterCalls_blank, get_afterRows, get_blank, Bool.false_xor]

/-- In between two clears the order of the rows does not count. -/
theorem afterCalls_of_perm (g : Grid) {drawn other : List DrawnRow} (perm : other.Perm drawn) :
    g.afterCalls (other.map .draw) = g.afterCalls (drawn.map .draw) := by
  apply ext_get
  intro place
  rw [get_afterRows, get_afterRows, strokesOn, strokesOn, (perm.map _).sum_nat]

/-! ## Rows in the exact range -/

theorem bitsOn_of_exact {r : DrawnRow} (exact : r.Exact) (column : Fin 64) (row : Fin 32) :
    bitsOn r.byte r.x r.y 8 (placeOf column row) = (r.covers column row).toNat := by
  have right : columnsFrom r.x (placeOf column row) = (column.val + 64 - r.x % 64) % 64 := by
    simp only [columnsFrom, placeOf]
    omega
  have here : rowsFrom r.y (placeOf column row) = 0 ↔ r.y % 32 = row.val := by
    simp only [rowsFrom, placeOf]
    omega
  rw [bitsOn_natCast (Nat.le_refl 8) exact.1 exact.2, right, decide_eq_decide.mpr here]
  rfl

/-- **In the exact range the bits drawn on a cell are the rows that cover it.** -/
theorem strokesOn_of_exact {rows : List DrawnRow} (exact : ∀ r ∈ rows, r.Exact)
    (column : Fin 64) (row : Fin 32) :
    strokesOn (placeOf column row) rows = rows.countP (·.covers column row) := by
  induction rows with
  | nil => rfl
  | cons r rows ih =>
    rw [List.forall_mem_cons] at exact
    rw [strokesOn, List.map_cons, List.sum_cons, ← strokesOn, ih exact.2,
      bitsOn_of_exact exact.1, List.countP_cons, Nat.add_comm]
    cases r.covers column row <;> rfl

/-! ## Views -/

/-- All views of a grid show a cell as lit, or all as off. -/
structure Shows (g : Grid) (column : Fin 64) (row : Fin 32) (lit : Bool) : Prop where
  pixel : g.pixel (column.val : Rat) (row.val : Rat) = some lit
  frame : (Frame.ofGrid g).width = 64 ∧ (Frame.ofGrid g).height = 32 ∧
    (Frame.ofGrid g).cells.size = 64 * 32 ∧ (Frame.ofGrid g).cell column row = lit
  text : g.ascii.length = 32 ∧ ∃ line, g.ascii[row.val]? = some line ∧ line.length = 64 ∧
    line.toList[column.val]? = some (if lit then '#' else '.')

theorem shows (g : Grid) (column : Fin 64) (row : Fin 32) :
    g.Shows column row (g.get (placeOf column row)) := by
  have inside : row.val * 64 + column.val < 2048 := by omega
  have place : row.val * 64 + column.val = (placeOf column row).val := by
    simp only [placeOf]
    omega
  have finite := Binary64.exactLimit_lt_rangeEnd
  rw [Binary64.exactLimit] at finite
  constructor
  · rw [pixel, cellIndex?_natCast (by omega) (by omega)]
    rfl
  · refine ⟨rfl, rfl, ?_, ?_⟩
    · simp [Frame.ofGrid]
    · exact Frame.cell_ofGrid g column.isLt row.isLt
  · refine ⟨by simp [ascii], g.line row, ?_, ?_, ?_⟩
    · simp [ascii]
    · simp [line]
    · simp only [line, String.toList_ofList, List.length_map, List.length_finRange, Fin.is_lt,
        getElem?_pos, List.getElem_map, List.getElem_finRange, Fin.cast_mk, Fin.eta]
      rw [g.getElem_eq_get inside place]

/-! ## The picture -/

/-- **A picture is the parity of what was drawn on it.** -/
theorem picture_is_parity (calls : List PictureCall) (column : Fin 64) (row : Fin 32) :
    let g := blank.afterCalls calls
    let rows := rowsSinceClear calls
    let lit := g.get (placeOf column row)
    lit.toNat = strokesOn (placeOf column row) rows % 2 ∧
    ((∀ r ∈ rows, r.Exact) → lit.toNat = rows.countP (·.covers column row) % 2) ∧
    g.Shows column row lit ∧
    ∀ (drawn other : List DrawnRow) (later : List PictureCall), other.Perm drawn →
      blank.afterCalls (calls ++ other.map .draw ++ later) =
        blank.afterCalls (calls ++ drawn.map .draw ++ later) := by
  intro g rows lit
  have parity : lit.toNat = strokesOn (placeOf column row) rows % 2 := by
    rw [Nat.mod_two_of_bodd, ← get_afterCalls]
  refine ⟨parity, ?_, shows g column row, ?_⟩
  · intro exact
    rw [parity, strokesOn_of_exact exact]
  · intro drawn other later perm
    rw [afterCalls_append, afterCalls_append, afterCalls_append, afterCalls_append,
      afterCalls_of_perm _ perm]

/-- Two rows over the first row of the picture, one of them at the end of the exact range and
the other over the right edge, after a clear. -/
theorem picture_is_parity_acrossTheEdge :
    let first : DrawnRow := ⟨0xff, 2 ^ 53 - 8, 32⟩
    let second : DrawnRow := ⟨0xff, 60, 2 ^ 60⟩
    let before : List PictureCall := [.draw ⟨0x81, 0, 0⟩, .clear]
    let g := blank.afterCalls (before ++ [first, second].map .draw ++ [])
    g.Shows 0 0 true ∧ g.Shows 60 0 false ∧
      blank.afterCalls (before ++ [second, first].map .draw ++ []) = g := by
  intro first second before g
  have exact : ∀ r ∈ rowsSinceClear (before ++ [first, second].map .draw ++ []), r.Exact := by
    decide +kernel
  have odd := picture_is_parity (before ++ [first, second].map .draw ++ []) 0 0
  have even := picture_is_parity (before ++ [first, second].map .draw ++ []) 60 0
  have lit : g.get (placeOf (0 : Fin 64) (0 : Fin 32)) = true := by
    rw [← Bool.toNat_eq_one]
    exact (odd.2.1 exact).trans (by decide +kernel)
  have off : g.get (placeOf (60 : Fin 64) (0 : Fin 32)) = false := by
    rw [← Bool.toNat_eq_zero]
    exact (even.2.1 exact).trans (by decide +kernel)
  have shown := odd.2.2.1
  have hidden := even.2.2.1
  refine ⟨?_, ?_, ?_⟩
  · rw [← lit]
    exact shown
  · rw [← off]
    exact hidden
  · have order := (picture_is_parity before 0 0).2.2.2
    exact order [first, second] [second, first] [] (List.Perm.swap first second [])

/-- **Far out neighbouring bits of a row come to one cell.**  The row covers the first cell
once, but its second bit is drawn there as well. -/
theorem picture_far_out :
    let calls : List PictureCall := [.draw ⟨0xc0, 2 ^ 53, 0⟩]
    (rowsSinceClear calls).countP (·.covers 0 0) % 2 = 1 ∧
      Vector.get (blank.afterCalls calls) (placeOf 0 0) = false := by
  intro calls
  constructor
  · decide +kernel
  · rw [get_afterCalls]
    decide +kernel

end Grid

end Chip8
