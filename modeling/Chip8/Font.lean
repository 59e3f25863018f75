/-
# Chip8.Font -- the built-in digit glyphs

Sixteen glyphs, one for each base-16 digit, of five rows each; the four high bits of a row
are its cells, from left to right.  `Font.bytes` is the order in which they stand in
memory, so the glyph of digit `d` starts at `5 * d`.
-/
set_option autoImplicit false

namespace Chip8.Font

/-- Rows of one glyph. -/
def rowsPerGlyph : Nat := 5

def glyphs : List (List UInt8) :=
  [[0xf0, 0x90, 0x90, 0x90, 0xf0],
   [0x20, 0x60, 0x20, 0x20, 0x70],
   [0xf0, 0x10, 0xf0, 0x80, 0xf0],
   [0xf0, 0x10, 0xf0, 0x10, 0xf0],
   [0x90, 0x90, 0xf0, 0x10, 0x10],
   [0xf0, 0x80, 0xf0, 0x10, 0xf0],
   [0xf0, 0x80, 0xf0, 0x90, 0xf0],
   [0xf0, 0x10, 0x20, 0x40, 0x40],
   [0xf0, 0x90, 0xf0, 0x90, 0xf0],
   [0xf0, 0x90, 0xf0, 0x10, 0xf0],
   [0xf0, 0x90, 0xf0, 0x90, 0x90],
   [0xe0, 0x90, 0xe0, 0x90, 0xe0],
   [0xf0, 0x80, 0x80, 0x80, 0xf0],
   [0xe0, 0x90, 0x90, 0x90, 0xe0],
   [0xf0, 0x80, 0xf0, 0x80, 0xf0],
   [0xf0, 0x80, 0xf0, 0x80, 0x80]]

def bytes : List UInt8 := glyphs.flatten

/-- Bytes of memory that the glyphs take, from address zero on. -/
def size : Nat := 80

theorem length_bytes : bytes.length = size := by decide

theorem zero_not_mem_bytes : (0 : UInt8) ∉ bytes := by simp [bytes, glyphs]

end Chip8.Font
