/-
# Chip8.Screen.Fingerprint -- a 32-bit fingerprint of bytes

FNV-1a in 32 bits: starting from a fixed word, each byte is mixed into the low bits by
exclusive or, and the word is multiplied by a fixed prime modulo `2 ^ 32`.  The fingerprint
of a grid is that of its cells, a byte 1 for a lit one and 0 for another, written in eight
base-16 digits.
-/
import Chip8.Number.Hexadecimal
import Chip8.Screen.Basic

set_option autoImplicit false

namespace Chip8.Fingerprint

def start : UInt32 := 0x811c9dc5

def prime : UInt32 := 0x01000193

/-- The fingerprint after one more byte. -/
def mix (h : UInt32) (b : UInt8) : UInt32 := (h ^^^ b.toUInt32) * prime

def ofList (bytes : List UInt8) : UInt32 := bytes.foldl mix start

def ofArray (bytes : Array UInt8) : UInt32 := bytes.foldl mix start

def cellByte (on : Bool) : UInt8 := if on then 1 else 0

def ofGrid (g : Grid) : UInt32 := g.toArray.foldl (fun h on => mix h (cellByte on)) start

/-- The written form of a fingerprint. -/
def text (h : UInt32) : String := Hexadecimal.ofWord32 h

end Chip8.Fingerprint

namespace Chip8

/-- The fingerprint of a grid, in eight base-16 digits. -/
def Grid.hash (g : Grid) : String := Fingerprint.text (Fingerprint.ofGrid g)

end Chip8
