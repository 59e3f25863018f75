/-
# Chip8.Instruction.Decode -- words to instructions and back

A word selects its instruction by its highest digit; the families 0, E and F look at the
low byte as well, the families 5, 8 and 9 at the lowest digit.  `decode` takes a whole
number of any size or sign and looks at its lowest sixteen bits only.  `encode` gives each
instruction a word that decodes to it, with a zero digit where the word leaves one free.
-/
import Chip8.Instruction.Basic

set_option autoImplicit false

namespace Chip8

/-! ## Fields of a word -/

namespace Word

/-- The lowest base-16 digit of a word. -/
def lastDigit (w : Int) : Fin 16 := ⟨(w % 16).toNat, by omega⟩

def lowByte (w : Int) : UInt8 := UInt8.ofNat (w % 256).toNat

/-- The lowest twelve bits of a word. -/
def target (w : Int) : Target := ⟨(w % 4096).toNat, by omega⟩

/-- The word of two bytes, the high one first. -/
def ofBytes (high low : UInt8) : Nat := high.toNat * 256 + low.toNat

end Word

namespace Instruction

/-! ## Decoding -/

/-- Family 8: two registers and an operation chosen by the lowest digit. -/
def decodeArithmetic (selector : Nat) (x y : Register) : Option Instruction :=
  match selector with
  | 0x0 => some (.copy x y)
  | 0x1 => some (.or x y)
  | 0x2 => some (.and x y)
  | 0x3 => some (.xor x y)
  | 0x4 => some (.add x y)
  | 0x5 => some (.sub x y)
  | 0x6 => some (.shiftRight x y)
  | 0x7 => some (.subFrom x y)
  | 0xe => some (.shiftLeft x y)
  | _ => none

/-- Family F: one register and an operation chosen by the low byte. -/
def decodeDevice (selector : Nat) (x : Register) : Option Instruction :=
  match selector with
  | 0x07 => some (.readTimer x)
  | 0x0a => some (.waitKey x)
  | 0x15 => some (.setTimer x)
  | 0x18 => some (.setSound x)
  | 0x1e => some (.addIndex x)
  | 0x29 => some (.glyphIndex x)
  | 0x33 => some (.storeDecimal x)
  | 0x55 => some (.store x)
  | 0x65 => some (.load x)
  | _ => none

/-- The instruction that a word stands for, if it stands for one. -/
def decode (w : Int) : Option Instruction :=
  let x := Word.lastDigit (w / 256)
  let y := Word.lastDigit (w / 16)
  let n := Word.lastDigit w
  let byte := Word.lowByte w
  let target := Word.target w
  match (Word.lastDigit (w / 4096)).val with
  | 0x0 =>
    match byte.toNat with
    | 0xe0 => some .clear
    | 0xee => some .ret
    | _ => none
  | 0x1 => some (.jump target)
  | 0x2 => some (.call target)
  | 0x3 => some (.skipEqByte x byte)
  | 0x4 => some (.skipNeByte x byte)
  | 0x5 => if n.val = 0 then some (.skipEq x y) else none
  | 0x6 => some (.loadByte x byte)
  | 0x7 => some (.addByte x byte)
  | 0x8 => decodeArithmetic n.val x y
  | 0x9 => if n.val = 0 then some (.skipNe x y) else none
  | 0xa => some (.loadIndex target)
  | 0xb => some (.jumpOffset target)
  | 0xc => some (.random x byte)
  | 0xd => some (.draw x y n)
  | 0xe =>
    match byte.toNat with
    | 0x9e => some (.skipPressed x)
    | 0xa1 => some (.skipReleased x)
    | _ => none
  | _ => decodeDevice byte.toNat x

/-! ## Encoding -/

/-- A word with a family, a register and a low byte. -/
def wordX (family : Nat) (x : Register) (byte : Nat) : Nat := family * 4096 + x.val * 256 + byte

/-- A word with a family, two registers and a lowest digit. -/
def wordXY (family : Nat) (x y : Register) (n : Nat) : Nat :=
  family * 4096 + x.val * 256 + y.val * 16 + n

/-- A word that decodes to the instruction. -/
def encode : Instruction → Nat
  | .clear => 0x00e0
  | .ret => 0x00ee
  | .jump target => 0x1000 + target.val
  | .call target => 0x2000 + target.val
  | .skipEqByte x byte => wordX 0x3 x byte.toNat
  | .skipNeByte x byte => wordX 0x4 x byte.toNat
  | .skipEq x y => wordXY 0x5 x y 0x0
  | .loadByte x byte => wordX 0x6 x byte.toNat
  | .addByte x byte => wordX 0x7 x byte.toNat
  | .copy x y => wordXY 0x8 x y 0x0
  | .or x y => wordXY 0x8 x y 0x1
  | .and x y => wordXY 0x8 x y 0x2
  | .xor x y => wordXY 0x8 x y 0x3
  | .add x y => wordXY 0x8 x y 0x4
  | .sub x y => wordXY 0x8 x y 0x5
  | .shiftRight x y => wordXY 0x8 x y 0x6
  | .subFrom x y => wordXY 0x8 x y 0x7
  | .shiftLeft x y => wordXY 0x8 x y 0xe
  | .skipNe x y => wordXY 0x9 x y 0x0
  | .loadIndex target => 0xa000 + target.val
  | .jumpOffset target => 0xb000 + target.val
  | .random x mask => wordX 0xc x mask.toNat
  | .draw x y rows => wordXY 0xd x y rows.val
  | .skipPressed x => wordX 0xe x 0x9e
  | .skipReleased x => wordX 0xe x 0xa1
  | .readTimer x => wordX 0xf x 0x07
  | .waitKey x => wordX 0xf x 0x0a
  | .setTimer x => wordX 0xf x 0x15
  | .setSound x => wordX 0xf x 0x18
  | .addIndex x => wordX 0xf x 0x1e
  | .glyphIndex x => wordX 0xf x 0x29
  | .storeDecimal x => wordX 0xf x 0x33
  | .store x => wordX 0xf x 0x55
  | .load x => wordX 0xf x 0x65

end Instruction

end Chip8
