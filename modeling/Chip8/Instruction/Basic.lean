/-
# Chip8.Instruction.Basic -- the 34 instructions

An instruction is a kind together with its operand fields: registers named by one
base-16 digit, an immediate byte, a 12-bit address, a row count.  The two shift
instructions carry a second register that they do not use, because their words do.
-/
set_option autoImplicit false

namespace Chip8

/-- The number of one of the sixteen registers V0 to VF. -/
abbrev Register := Fin 16

/-- V0, which an offset jump adds to its target. -/
def firstRegister : Register := ⟨0x0, by decide⟩

/-- The flag register VF. -/
def flagRegister : Register := ⟨0xf, by decide⟩

/-- A 12-bit address, as jumps and index loads carry it. -/
abbrev Target := Fin 4096

inductive Instruction where
  /-- Turn every cell of the screen off. -/
  | clear
  /-- Continue at the address popped from the return stack. -/
  | ret
  | jump (target : Target)
  /-- Push the address of the next instruction and jump. -/
  | call (target : Target)
  | skipEqByte (x : Register) (byte : UInt8)
  | skipNeByte (x : Register) (byte : UInt8)
  | skipEq (x y : Register)
  | loadByte (x : Register) (byte : UInt8)
  /-- Add a byte modulo 256, leaving VF alone. -/
  | addByte (x : Register) (byte : UInt8)
  | copy (x y : Register)
  | or (x y : Register)
  | and (x y : Register)
  | xor (x y : Register)
  /-- Add modulo 256; VF is the carry. -/
  | add (x y : Register)
  /-- `Vx - Vy` modulo 256; VF tells that nothing was borrowed. -/
  | sub (x y : Register)
  /-- Halve `Vx`; VF is the bit that falls out. -/
  | shiftRight (x y : Register)
  /-- `Vy - Vx` modulo 256; VF tells that nothing was borrowed. -/
  | subFrom (x y : Register)
  /-- Double `Vx` modulo 256; VF is the bit that falls out. -/
  | shiftLeft (x y : Register)
  | skipNe (x y : Register)
  | loadIndex (target : Target)
  /-- Jump to the target plus V0, which may exceed 12 bits. -/
  | jumpOffset (target : Target)
  /-- A random byte, masked. -/
  | random (x : Register) (mask : UInt8)
  /-- Draw `rows` bytes from memory at `(Vx, Vy)`; VF tells that a lit cell went off. -/
  | draw (x y : Register) (rows : Fin 16)
  | skipPressed (x : Register)
  | skipReleased (x : Register)
  | readTimer (x : Register)
  /-- Stay on this instruction until a key is latched. -/
  | waitKey (x : Register)
  | setTimer (x : Register)
  /-- Accepted and without effect: there is no sound. -/
  | setSound (x : Register)
  | addIndex (x : Register)
  /-- Point the index at the built-in glyph of the digit in `Vx`. -/
  | glyphIndex (x : Register)
  /-- Write the three decimal digits of `Vx` to memory. -/
  | storeDecimal (x : Register)
  /-- Write V0 to `Vx` to memory. -/
  | store (x : Register)
  /-- Read V0 to `Vx` from memory. -/
  | load (x : Register)
deriving DecidableEq, Repr

end Chip8
