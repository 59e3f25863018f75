/-
# Chip8.Random -- a stream of random bytes

The machine takes its random bytes from a stream that is fixed from the start, one byte
after another.  `drawn` counts the bytes taken, so a machine that takes none is the same
whatever the stream holds.
-/
import Chip8.Number.Binary64
import Chip8.Number.Wrap

set_option autoImplicit false

namespace Chip8

structure RandomStream where
  byte : Nat → UInt8
  drawn : Nat

namespace RandomStream

/-- The next byte, and the stream behind it. -/
def next (r : RandomStream) : UInt8 × RandomStream :=
  (r.byte r.drawn, { r with drawn := r.drawn + 1 })

/-- A stream that gives the numbers of a list in turn, as bytes, and starts again at its end. -/
def cycle (numbers : List Rat) : RandomStream :=
  let bytes := (numbers.map wrapByte).toArray
  { byte := fun k => bytes.getD (k % bytes.size) 0, drawn := 0 }

/-- The byte for a fraction between zero and one: the part of 256 equal intervals it is in. -/
def byteOfFraction (q : Rat) : UInt8 := wrapByte (Binary64.round (q * 256)).floor

/-- Bytes scattered from a seed by multiplication and shifting. -/
def seeded (seed : Nat) : RandomStream :=
  { byte := fun k =>
      let z := UInt64.ofNat (seed + k + 1) * 0x9e3779b97f4a7c15
      let z := (z ^^^ (z >>> 30)) * 0xbf58476d1ce4e5b9
      let z := (z ^^^ (z >>> 27)) * 0x94d049bb133111eb
      ((z ^^^ (z >>> 31)) >>> 24).toUInt8,
    drawn := 0 }

end RandomStream

end Chip8
