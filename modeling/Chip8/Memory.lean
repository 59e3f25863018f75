/-
# Chip8.Memory -- four kilobytes of bytes

Memory has the addresses 0 to `0xfff`.  An address comes as a number, and `address?` says
which numbers are addresses at all: the whole ones in that range.  Every access to another
number is a fault at that number.

Instructions and loaders work on runs of neighbouring bytes.  `writeFrom` and `readFrom`
go through a run byte by byte and stop at the first place outside memory: what lies before
that place is done, and the fault names it.  `loadGlyphs` puts the digit glyphs at the
bottom of memory, and only while that region is still zero.
-/
import Chip8.Number.Wrap
import Chip8.Fault
import Chip8.Font

set_option autoImplicit false

namespace Chip8

structure Memory where
  bytes : Vector UInt8 4096
deriving DecidableEq

/-- Where programs start. -/
def programStart : Nat := 0x200

namespace Memory

/-- All bytes zero. -/
def empty : Memory := ⟨Vector.replicate 4096 0⟩

def size : Nat := 4096

/-! ## One byte -/

/-- The place in memory that a number names: a whole number below the size of memory. -/
def address? (a : Rat) : Option (Fin 4096) := indexBelow? 4096 a

def get (m : Memory) (k : Fin 4096) : UInt8 := m.bytes[k]

def set (m : Memory) (k : Fin 4096) (b : UInt8) : Memory := ⟨m.bytes.set k b⟩

def read (m : Memory) (a : Rat) : Except Fault UInt8 :=
  match address? a with
  | some k => .ok (m.get k)
  | none => .error (.memoryAccess a)

def write (m : Memory) (a value : Rat) : Except Fault Memory :=
  match address? a with
  | some k => .ok (m.set k (wrapByte value))
  | none => .error (.memoryAccess a)

/-! ## Runs of bytes -/

/-- Writes bytes from address `a` on, up to the first place outside memory. -/
def writeFrom (m : Memory) (a : Rat) : List UInt8 → Memory × Option Fault
  | [] => (m, none)
  | b :: rest =>
    match address? a with
    | some k => (m.set k b).writeFrom (a + 1) rest
    | none => (m, some (.memoryAccess a))

/-- The bytes from address `a` on, up to `count` of them or the first place outside memory. -/
def readFrom (m : Memory) (a : Rat) : Nat → List UInt8 × Option Fault
  | 0 => ([], none)
  | count + 1 =>
    match address? a with
    | some k =>
      let (rest, fault) := m.readFrom (a + 1) count
      (m.get k :: rest, fault)
    | none => ([], some (.memoryAccess a))

/-- Writes an image where programs start. -/
def loadProgram (m : Memory) (image : List Rat) : Memory × Option Fault :=
  m.writeFrom programStart (image.map wrapByte)

/-- Up to `length` bytes from address `start` on. -/
def dump (m : Memory) (start length : Rat) : Except Fault (List UInt8) :=
  match address? start with
  | some k =>
    let stop := truncate (Binary64.add start (atLeastZero length))
    .ok (m.bytes.toArray.extract k.val stop.toNat).toList
  | none => .error (.memoryAccess start)

/-! ## Glyphs -/

/-- Why the glyphs were not loaded. -/
inductive GlyphError where
  | regionWritten
deriving DecidableEq

def GlyphError.message : GlyphError → String
  | .regionWritten =>
    "Glyph region already written; built-in sprites must be loaded first and only once"

/-- Whether all bytes of the glyph region are zero. -/
def glyphRegionClear (m : Memory) : Bool :=
  (m.bytes.toArray.extract 0 Font.size).all (· == 0)

/-- Writes the glyphs, where their region is still clear. -/
def loadGlyphs (m : Memory) : Except GlyphError Memory :=
  if m.glyphRegionClear then .ok (m.writeFrom 0 Font.bytes).1 else .error .regionWritten

/-- The memory of a machine that has just been made: the glyphs and nothing else. -/
def fresh : Memory := (empty.writeFrom 0 Font.bytes).1

theorem address?_natCast (n : Nat) :
    address? (n : Rat) = if h : n < 4096 then some ⟨n, h⟩ else none :=
  indexBelow?_natCast 4096 n

theorem address?_eq_some {a : Rat} {k : Fin 4096} (h : address? a = some k) :
    a = (k.val : Rat) :=
  indexBelow?_eq_some h

end Memory

end Chip8
