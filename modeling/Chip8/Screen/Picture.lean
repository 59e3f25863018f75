/-
# Chip8.Screen.Picture -- frames magnified into coloured pictures

A frame is a grid of any size.  Its picture shows each cell as a square block of one of two
colours; a pixel of the picture takes four bytes, the three components of its colour and
full opacity.  A picture is painted over zeros, pixel by pixel: the rows from the top down
and each of them from left to right (`Frame.paint`, `Frame.paintRow`).  A byte that would
go to a place outside the picture is lost.

The magnification is a number: its whole part modulo `2 ^ 32`, read as signed, and at
least one.
-/
import Chip8.Number.Wrap
import Chip8.Screen.Basic

set_option autoImplicit false

namespace Chip8

structure Colour where
  red : Rat
  green : Rat
  blue : Rat
deriving DecidableEq

/-- The four bytes of an opaque pixel. -/
def Colour.pixel (c : Colour) : Vector UInt8 4 :=
  #v[wrapByte c.red, wrapByte c.green, wrapByte c.blue, 255]

structure Palette where
  off : Colour
  on : Colour
deriving DecidableEq

/-- White cells on black. -/
def Palette.monochrome : Palette := { off := ⟨0, 0, 0⟩, on := ⟨255, 255, 255⟩ }

/-- A grid of `width` times `height` cells, row by row; cells that are missing are off. -/
structure Frame where
  width : Nat
  height : Nat
  cells : Array Bool

namespace Frame

/-- A frame given by one number for each cell, zero for a cell that is off. -/
def ofNumbers (width height : Nat) (pixels : List Rat) : Frame :=
  { width, height, cells := (pixels.map (· != 0)).toArray }

def ofGrid (g : Grid) : Frame :=
  { width := Screen.width, height := Screen.height, cells := g.toArray }

/-- Whether a cell is on. -/
def cell (f : Frame) (x y : Nat) : Bool := f.cells.getD (y * f.width + x) false

end Frame

/-- How many pixels wide and high a cell is shown. -/
def magnification (scale : Rat) : Nat := (max 1 (wrapSigned32 scale)).toNat

namespace Picture

/-- Stores the four bytes of a pixel from place `k` on. -/
def paintPixel (picture : Array UInt8) (k : Nat) (pixel : Vector UInt8 4) : Array UInt8 :=
  let picture := picture.setIfInBounds k pixel[0]
  let picture := picture.setIfInBounds (k + 1) pixel[1]
  let picture := picture.setIfInBounds (k + 2) pixel[2]
  picture.setIfInBounds (k + 3) pixel[3]

end Picture

namespace Frame

/-- Paints the pixels of a row of the picture, `s` pixels to a cell. -/
def paintRow (f : Frame) (s : Nat) (off on : Vector UInt8 4) (picture : Array UInt8)
    (row : Nat) : Array UInt8 :=
  let width := f.width * s
  (List.range width).foldl (fun picture column =>
    Picture.paintPixel picture ((row * width + column) * 4)
      (if f.cell (column / s) (row / s) then on else off)) picture

/-- Paints the rows of the picture. -/
def paint (f : Frame) (s : Nat) (palette : Palette) (picture : Array UInt8) : Array UInt8 :=
  (List.range (f.height * s)).foldl (f.paintRow s palette.off.pixel palette.on.pixel) picture

/-- The number of bytes in the picture of a frame, `s` pixels to a cell. -/
def pictureSize (f : Frame) (s : Nat) : Nat := f.width * s * (f.height * s) * 4

/-- The picture of a frame, four bytes to a pixel. -/
def render (f : Frame) (scale : Rat) (palette : Palette) : Array UInt8 :=
  let s := magnification scale
  f.paint s palette (Array.replicate (f.pictureSize s) 0)

end Frame

/-- Four bytes of a picture from place `k` on, where there are that many. -/
def Picture.pixelAt? (picture : Array UInt8) (k : Nat) : Option (List UInt8) :=
  if k < picture.size then some (picture.extract k (k + 4)).toList else none

end Chip8
