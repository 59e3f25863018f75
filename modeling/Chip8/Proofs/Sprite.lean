/-
# Chip8.Proofs.Sprite -- the cells that a sprite toggles

A sprite is a list of bytes, one for each row, drawn from column `x` and row `y` on with
both axes wrapping.  `spriteBit` says which bit of the sprite, if any, falls on a place of
the grid, and `Grid.toggled` toggles the cells under the set bits, each on its own.

Drawing goes bit by bit and row by row.  Whatever the coordinates, a row toggles a cell as
often as set bits of it are drawn there (`get_drawRow`).  At whole coordinates each bit comes
to a place of its own (`bitsOn_natCast`), and a sprite of at most 32 rows meets each place
once, so the rows drawn later never undo the earlier ones (`strokes_natCast`).
`drawRow_natCast` and `drawRows_natCast` are the two loops in closed form.
-/
import Mathlib.Data.List.GetD
import Mathlib.Data.Nat.Bits
import Chip8.Screen.Basic

set_option autoImplicit false

namespace Chip8

/-! ## Bits of a sprite -/

/-- How far a place lies to the right of column `x`, around the edge. -/
def columnsFrom (x : Nat) (place : Fin 2048) : Nat := (place.val % 64 + 64 - x % 64) % 64

/-- How far a place lies below row `y`, around the edge. -/
def rowsFrom (y : Nat) (place : Fin 2048) : Nat := (place.val / 64 + 32 - y % 32) % 32

/-- The bit of a row drawn from column `x` on that falls on a place, none being clear. -/
def rowBit (byte : UInt8) (x : Nat) (place : Fin 2048) : Bool :=
  decide (columnsFrom x place < 8) && byte.toNat.testBit (7 - columnsFrom x place)

/-- The bit of a sprite drawn from column `x` and row `y` on that falls on a place. -/
def spriteBit (sprite : List UInt8) (x y : Nat) (place : Fin 2048) : Bool :=
  rowBit (sprite.getD (rowsFrom y place) 0) x place

theorem rowBit_zero (x : Nat) (place : Fin 2048) : rowBit 0 x place = false := by
  simp [rowBit]

/-- Nothing of the rest of a sprite falls on the row above it, since there are too few rows to
come around. -/
theorem spriteBit_below {rest : List UInt8} (short : rest.length < 32) (x : Nat) {y : Nat}
    {place : Fin 2048} (first : rowsFrom y place = 0) :
    spriteBit rest x (y + 1) place = false := by
  have inside := place.isLt
  have around : rowsFrom (y + 1) place = 31 := by
    unfold rowsFrom at first ⊢
    omega
  have past : rest.getD 31 0 = 0 := List.getD_eq_default _ _ (by omega)
  rw [spriteBit, around, past, rowBit_zero]

/-- The rest of a sprite starts one row lower. -/
theorem spriteBit_cons {rest : List UInt8} (short : rest.length < 32) (byte : UInt8) (x y : Nat)
    (place : Fin 2048) :
    spriteBit (byte :: rest) x y place =
      ((decide (rowsFrom y place = 0) && rowBit byte x place) ^^
        spriteBit rest x (y + 1) place) := by
  by_cases first : rowsFrom y place = 0
  · rw [spriteBit_below short x first, spriteBit, first]
    simp
  · have inside := place.isLt
    have lower : rowsFrom y place = rowsFrom (y + 1) place + 1 := by
      unfold rowsFrom at first ⊢
      omega
    rw [spriteBit, spriteBit, lower, List.getD_cons_succ]
    simp

theorem bodd_toNat (b : Bool) : b.toNat.bodd = b := by
  cases b <;> rfl

namespace Grid

/-- The grid with each cell toggled on which a set bit of the sprite falls. -/
def toggled (g : Grid) (sprite : List UInt8) (x y : Nat) : Grid :=
  Vector.ofFn fun place => g.get place ^^ spriteBit sprite x y place

/-! ## One row -/

theorem get_blank (place : Fin 2048) : Vector.get blank place = false :=
  Vector.getElem_replicate place.isLt

theorem get_set (g : Grid) (k place : Fin 2048) (lit : Bool) :
    Vector.get (g.set k.val lit k.isLt) place = if place = k then lit else g.get place := by
  have h : Vector.get (g.set k.val lit k.isLt) place =
      if k.val = place.val then lit else g.get place :=
    Vector.getElem_set k.isLt place.isLt
  simp only [h, Fin.ext_iff, eq_comm]

theorem wrapped_lt (x y : Nat) : y % 32 * 64 + x % 64 < 2048 := by
  omega

/-- The place of column `x`, row `y`, both wrapped. -/
def placeOf (x y : Nat) : Fin 2048 := ⟨y % 32 * 64 + x % 64, wrapped_lt x y⟩

theorem eq_placeOf_iff (x y bit : Nat) (few : bit < 64) (place : Fin 2048) :
    place = placeOf (x + bit) y ↔ rowsFrom y place = 0 ∧ columnsFrom x place = bit := by
  have inside := place.isLt
  simp only [Fin.ext_iff, placeOf, rowsFrom, columnsFrom]
  constructor
  · intro same
    constructor <;> omega
  · rintro ⟨row, column⟩
    omega

theorem countP_range_succ (p : Nat → Bool) (n : Nat) :
    (List.range (n + 1)).countP p = (List.range n).countP p + (p n).toNat := by
  rw [List.range_succ, List.countP_append, List.countP_singleton]
  cases p n <;> rfl

/-- The number of set bits, among the first of a row, that are drawn on a place.  A column that
is far out is rounded, so several bits may come to one place. -/
def bitsOn (byte : UInt8) (x y : Rat) (bits : Nat) (place : Fin 2048) : Nat :=
  (List.range bits).countP fun bit =>
    byte.toNat.testBit (7 - bit) && cellIndex? (Binary64.add x bit) y == some place

theorem bitsOn_succ (byte : UInt8) (x y : Rat) (bits : Nat) (place : Fin 2048) :
    bitsOn byte x y (bits + 1) place =
      bitsOn byte x y bits place +
        (byte.toNat.testBit (7 - bits) &&
          cellIndex? (Binary64.add x bits) y == some place).toNat :=
  countP_range_succ _ bits

/-- A bit toggles the cell that it is drawn on, if it is set, and no other. -/
theorem get_drawBit (byte : UInt8) (x y : Rat) (g : Grid) (erased : Bool) (bit : Nat)
    (place : Fin 2048) :
    Vector.get (drawBit byte x y (g, erased) bit).1 place =
      (g.get place ^^ (byte.toNat.testBit (7 - bit) &&
        cellIndex? (Binary64.add x bit) y == some place)) := by
  unfold drawBit
  cases found : cellIndex? (Binary64.add x bit) y with
  | none => simp
  | some k =>
    simp only [get_set]
    by_cases hit : place = k
    · subst hit
      simp
      rfl
    · have other : (k == place) = false := by simpa using Ne.symm hit
      simp [hit, other]

/-- **The first bits of a row toggle a cell as often as they are set and drawn on it.** -/
theorem get_drawBits (byte : UInt8) (x y : Rat) (g : Grid) (erased : Bool) (bits : Nat)
    (place : Fin 2048) :
    Vector.get ((List.range bits).foldl (drawBit byte x y) (g, erased)).1 place =
      (g.get place ^^ (bitsOn byte x y bits place).bodd) := by
  induction bits with
  | zero => simp [bitsOn]
  | succ bits ih =>
    rw [List.range_succ, List.foldl_append, List.foldl_cons, List.foldl_nil, get_drawBit, ih,
      bitsOn_succ, Nat.bodd_add, bodd_toNat, Bool.xor_assoc]

theorem get_drawRow (byte : UInt8) (x y : Rat) (g : Grid) (place : Fin 2048) :
    Vector.get (g.drawRow byte x y).1 place =
      (g.get place ^^ (bitsOn byte x y 8 place).bodd) :=
  get_drawBits byte x y g false 8 place

/-! ## A row at whole coordinates -/

theorem cellIndex?_add {x y bit : Nat} (hx : x + bit ≤ Binary64.exactLimit)
    (hy : y < Binary64.rangeEnd) :
    cellIndex? (Binary64.add (x : Rat) bit) (y : Rat) = some (placeOf (x + bit) y) := by
  have inside := Binary64.exactLimit_lt_rangeEnd
  rw [Binary64.add_natCast hx]
  exact cellIndex?_natCast (Nat.lt_of_le_of_lt hx inside) hy

/-- **At whole coordinates each bit of a row comes to a place of its own.** -/
theorem bitsOn_natCast {x y bits : Nat} (few : bits ≤ 8)
    (hx : x + 7 ≤ Binary64.exactLimit) (hy : y < Binary64.rangeEnd) (byte : UInt8)
    (place : Fin 2048) :
    bitsOn byte (x : Rat) (y : Rat) bits place =
      (decide (rowsFrom y place = 0) && decide (columnsFrom x place < bits) &&
        byte.toNat.testBit (7 - columnsFrom x place)).toNat := by
  induction bits with
  | zero => simp [bitsOn]
  | succ bits ih =>
    have here := eq_placeOf_iff x y bits (by omega) place
    rw [bitsOn_succ, ih (by omega), cellIndex?_add (by omega) hy]
    by_cases hit : place = placeOf (x + bits) y
    · obtain ⟨row, column⟩ := here.mp hit
      rw [← hit]
      simp [row, column]
    · have miss : ¬ placeOf (x + bits) y = place := Ne.symm hit
      by_cases row : rowsFrom y place = 0
      · have other : columnsFrom x place ≠ bits := fun column => hit (here.mpr ⟨row, column⟩)
        have same : columnsFrom x place < bits + 1 ↔ columnsFrom x place < bits := by omega
        simp [same, miss]
      · simp [row, miss]

/-- **Drawing one row toggles the cells under its set bits.** -/
theorem drawRow_natCast {x y : Nat} (hx : x + 7 ≤ Binary64.exactLimit)
    (hy : y < Binary64.rangeEnd) (byte : UInt8) (g : Grid) (place : Fin 2048) :
    Vector.get (g.drawRow byte (x : Rat) (y : Rat)).1 place =
      (g.get place ^^ (decide (rowsFrom y place = 0) && rowBit byte x place)) := by
  rw [get_drawRow, bitsOn_natCast (Nat.le_refl 8) hx hy, bodd_toNat, rowBit, Bool.and_assoc]

/-! ## A whole sprite -/

theorem get_toggled (g : Grid) (sprite : List UInt8) (x y : Nat) (place : Fin 2048) :
    Vector.get (g.toggled sprite x y) place = (g.get place ^^ spriteBit sprite x y place) := by
  have inside := place.isLt
  exact Vector.getElem_ofFn inside

theorem ext_get {g h : Grid} (same : ∀ place, g.get place = h.get place) : g = h :=
  Vector.ext fun place inside => same ⟨place, inside⟩

/-- The number of set bits of a sprite that are drawn on a place. -/
def strokes (x : Rat) (y : Nat) (place : Fin 2048) : List UInt8 → Nat
  | [] => 0
  | byte :: rest => bitsOn byte x (y : Rat) 8 place + strokes x (y + 1) place rest

/-- **A sprite toggles a cell as often as set bits of it are drawn there.** -/
theorem get_drawRows (x : Rat) (y : Nat) (g : Grid) (erased : Bool) (sprite : List UInt8)
    (place : Fin 2048) :
    Vector.get (drawRows x y (g, erased) sprite).1 place =
      (g.get place ^^ (strokes x y place sprite).bodd) := by
  induction sprite generalizing y g erased with
  | nil => simp [drawRows, strokes]
  | cons byte rest ih =>
    simp only [drawRows]
    rw [ih, get_drawRow, strokes, Nat.bodd_add, Bool.xor_assoc]

section Whole

variable {x y : Nat} {sprite : List UInt8} (hx : x + 7 ≤ Binary64.exactLimit)
  (hy : y + sprite.length ≤ Binary64.rangeEnd) (rows : sprite.length ≤ 32)

include hx hy rows

/-- **At whole coordinates a sprite of at most 32 rows is drawn on a cell once, if at all.** -/
theorem strokes_natCast (place : Fin 2048) :
    strokes (x : Rat) y place sprite = (spriteBit sprite x y place).toNat := by
  induction sprite generalizing y with
  | nil => simp [strokes, spriteBit, rowBit_zero]
  | cons byte rest ih =>
    rw [List.length_cons] at hy rows
    rw [strokes, bitsOn_natCast (Nat.le_refl 8) hx (by omega), ih (by omega) (by omega),
      spriteBit_cons (by omega), Bool.and_assoc, ← rowBit]
    by_cases first : rowsFrom y place = 0
    · simp [spriteBit_below (by omega : rest.length < 32) x first]
    · simp [first]

/-- **Drawing a sprite of at most 32 rows toggles the cells under its set bits.** -/
theorem drawRows_natCast (g : Grid) (erased : Bool) :
    (drawRows (x : Rat) y (g, erased) sprite).1 = g.toggled sprite x y := by
  apply ext_get
  intro place
  rw [get_drawRows, strokes_natCast hx hy rows, bodd_toNat, get_toggled]

end Whole

end Grid

end Chip8
