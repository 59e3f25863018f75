/-
# Chip8.Screen.Basic -- a grid of cells and the rows drawn on it

The screen has 64 columns and 32 rows of cells, each lit or not.  Drawing is exclusive or:
`drawRow` toggles the cells under the set bits of a byte, eight columns wide, and tells
whether a lit cell went off.  Both axes wrap, column by column and row by row.

A coordinate comes as a number.  `cellIndex?` gives the place of a cell: the remainders by
the two sizes keep the sign of the coordinate, so a negative one may lead outside the
grid, where nothing is read and nothing written.  An infinite one has no remainder and
leads nowhere.

A screen also remembers when it was last shown; `canFlush` opens once more than ten
milliseconds have passed.
-/
import Chip8.Number.Binary64
import Chip8.Number.Wrap

set_option autoImplicit false

namespace Chip8

/-- The cells of the screen, row by row. -/
abbrev Grid := Vector Bool 2048

structure Screen where
  cells : Grid
  lastFlushAt : Rat
deriving DecidableEq

namespace Screen

def width : Nat := 64
def height : Nat := 32

/-- A screen may be shown again once more than this many milliseconds have passed. -/
def flushInterval : Rat := 10

end Screen

namespace Grid

/-- All cells off. -/
def blank : Grid := Vector.replicate 2048 false

/-! ## Places -/

/-- The place of the cell in column `x` of row `y`, where there is one. -/
def cellIndex? (x y : Rat) : Option (Fin 2048) :=
  if Binary64.beyondRange x || Binary64.beyondRange y then none
  else
    indexBelow? 2048 <|
      Binary64.add (remainder y Screen.height * Screen.width) (remainder x Screen.width)

/-- On whole coordinates that are not negative both axes wrap, and every cell is there. -/
theorem cellIndex?_natCast {x y : Nat} (hx : x < Binary64.rangeEnd)
    (hy : y < Binary64.rangeEnd) :
    cellIndex? (x : Rat) (y : Rat) = some ⟨y % 32 * 64 + x % 64, by omega⟩ := by
  have inside : y % 32 * 64 + x % 64 < 2048 := by omega
  have place : Binary64.add (remainder y Screen.height * Screen.width) (remainder x Screen.width)
      = ((y % 32 * 64 + x % 64 : Nat) : Rat) := by
    rw [remainder_natCast, remainder_natCast, ← Rat.natCast_mul, Binary64.add_natCast]
    · rfl
    · simp only [Screen.height, Screen.width, Binary64.exactLimit]
      omega
  rw [cellIndex?, Binary64.beyondRange_natCast hx, Binary64.beyondRange_natCast hy, place,
    indexBelow?_natCast, dif_pos inside]
  rfl

/-- The cell in column `x` of row `y`, where there is one. -/
def pixel (g : Grid) (x y : Rat) : Option Bool := (cellIndex? x y).map fun k => g[k]

/-! ## Drawing -/

/-- Toggles the cell under one bit of a row, if the bit is set; the flag keeps whether a
lit cell has gone off so far. -/
def drawBit (byte : UInt8) (x y : Rat) (drawn : Grid × Bool) (bit : Nat) : Grid × Bool :=
  match cellIndex? (Binary64.add x bit) y with
  | some k =>
    let (g, erased) := drawn
    let set := byte.toNat.testBit (7 - bit)
    let lit := g[k]
    (g.set k (lit ^^ set), erased || (lit && set))
  | none => drawn

/-- Toggles the cells of row `y` under the set bits of a byte, its highest bit in column
`x`; the answer tells whether a lit cell went off. -/
def drawRow (g : Grid) (byte : UInt8) (x y : Rat) : Grid × Bool :=
  (List.range 8).foldl (drawBit byte x y) (g, false)

/-- Draws bytes in the rows from `y` down. -/
def drawRows (x : Rat) (y : Nat) (drawn : Grid × Bool) : List UInt8 → Grid × Bool
  | [] => drawn
  | byte :: rest =>
    let (g, erased) := drawn
    let (g, off) := g.drawRow byte x (y : Rat)
    drawRows x (y + 1) (g, erased || off) rest

/-! ## Views -/

/-- The number of lit cells. -/
def lit (g : Grid) : Nat := g.toList.countP id

/-- One line of the picture, `#` for a lit cell. -/
def line (g : Grid) (y : Fin 32) : String :=
  String.ofList <| (List.finRange 64).map fun (x : Fin 64) =>
    have inside : y.val * 64 + x.val < 2048 := by omega
    if g[y.val * 64 + x.val] then '#' else '.'

/-- The picture as 32 lines. -/
def ascii (g : Grid) : List String := (List.finRange 32).map g.line

end Grid

namespace Screen

/-- A blank screen made at time `now`. -/
def create (now : Rat) : Screen := { cells := Grid.blank, lastFlushAt := now }

def canFlush (s : Screen) (now : Rat) : Bool :=
  (Binary64.sub? now s.lastFlushAt).any (flushInterval < ·)

/-- The screen after it has been shown at time `now`. -/
def flushed (s : Screen) (now : Rat) : Screen := { s with lastFlushAt := now }

end Screen

/-! ## Showing -/

/-- A display that keeps the last frame shown and counts the frames. -/
structure Display where
  presented : Nat
  last : Option Grid

namespace Display

/-- Nothing shown yet. -/
def idle : Display := { presented := 0, last := none }

def present (d : Display) (frame : Grid) : Display :=
  { presented := d.presented + 1, last := some frame }

end Display

end Chip8
