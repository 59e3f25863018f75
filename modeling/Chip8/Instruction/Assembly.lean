/-
# Chip8.Instruction.Assembly -- the written form of an instruction

A line of assembly is a mnemonic and its operands.  `Instruction.line` says which line an
instruction has; mnemonics are shared (`LD` alone has eleven forms) and told apart by their
operands, and the two shifts show only the register they use.  `Line.text` writes a line: a
space after the mnemonic, a comma and a space between operands.

A word that stands for no instruction is written as the data directive `DW`.
-/
import Chip8.Number.Hexadecimal
import Chip8.Number.Wrap
import Chip8.Instruction.Decode

set_option autoImplicit false

namespace Chip8

namespace Assembly

/-! ## Lines -/

inductive Mnemonic where
  | cls | ret | jp | call | se | sne | ld | add | or | and | xor
  | sub | shr | subn | shl | rnd | drw | skp | sknp
deriving DecidableEq, Repr

/-- An operand as it is written. -/
inductive Operand where
  | register (x : Register)
  | target (address : Target)
  | byte (value : UInt8)
  | count (rows : Fin 16)
  /-- The index register. -/
  | index
  /-- The memory that the index register points at. -/
  | memory
  | delay
  | sound
  | key
  | glyph
  | decimal
deriving DecidableEq, Repr

structure Line where
  mnemonic : Mnemonic
  operands : List Operand
deriving DecidableEq, Repr

end Assembly

open Assembly in
/-- The line of assembly that stands for an instruction. -/
def Instruction.line : Instruction → Line
  | .clear => ⟨.cls, []⟩
  | .ret => ⟨.ret, []⟩
  | .jump a => ⟨.jp, [.target a]⟩
  | .call a => ⟨.call, [.target a]⟩
  | .skipEqByte x b => ⟨.se, [.register x, .byte b]⟩
  | .skipNeByte x b => ⟨.sne, [.register x, .byte b]⟩
  | .skipEq x y => ⟨.se, [.register x, .register y]⟩
  | .loadByte x b => ⟨.ld, [.register x, .byte b]⟩
  | .addByte x b => ⟨.add, [.register x, .byte b]⟩
  | .copy x y => ⟨.ld, [.register x, .register y]⟩
  | .or x y => ⟨.or, [.register x, .register y]⟩
  | .and x y => ⟨.and, [.register x, .register y]⟩
  | .xor x y => ⟨.xor, [.register x, .register y]⟩
  | .add x y => ⟨.add, [.register x, .register y]⟩
  | .sub x y => ⟨.sub, [.register x, .register y]⟩
  | .shiftRight x _ => ⟨.shr, [.register x]⟩
  | .subFrom x y => ⟨.subn, [.register x, .register y]⟩
  | .shiftLeft x _ => ⟨.shl, [.register x]⟩
  | .skipNe x y => ⟨.sne, [.register x, .register y]⟩
  | .loadIndex a => ⟨.ld, [.index, .target a]⟩
  | .jumpOffset a => ⟨.jp, [.register firstRegister, .target a]⟩
  | .random x b => ⟨.rnd, [.register x, .byte b]⟩
  | .draw x y n => ⟨.drw, [.register x, .register y, .count n]⟩
  | .skipPressed x => ⟨.skp, [.register x]⟩
  | .skipReleased x => ⟨.sknp, [.register x]⟩
  | .readTimer x => ⟨.ld, [.register x, .delay]⟩
  | .waitKey x => ⟨.ld, [.register x, .key]⟩
  | .setTimer x => ⟨.ld, [.delay, .register x]⟩
  | .setSound x => ⟨.ld, [.sound, .register x]⟩
  | .addIndex x => ⟨.add, [.index, .register x]⟩
  | .glyphIndex x => ⟨.ld, [.glyph, .register x]⟩
  | .storeDecimal x => ⟨.ld, [.decimal, .register x]⟩
  | .store x => ⟨.ld, [.memory, .register x]⟩
  | .load x => ⟨.ld, [.register x, .memory]⟩

namespace Assembly

/-! ## Text -/

def Mnemonic.text : Mnemonic → String
  | .cls => "CLS"
  | .ret => "RET"
  | .jp => "JP"
  | .call => "CALL"
  | .se => "SE"
  | .sne => "SNE"
  | .ld => "LD"
  | .add => "ADD"
  | .or => "OR"
  | .and => "AND"
  | .xor => "XOR"
  | .sub => "SUB"
  | .shr => "SHR"
  | .subn => "SUBN"
  | .shl => "SHL"
  | .rnd => "RND"
  | .drw => "DRW"
  | .skp => "SKP"
  | .sknp => "SKNP"

/-- A number in capitals behind `0x`, with at least `width` digits. -/
def hexText (width : Nat) (q : Rat) : String := "0x" ++ Hexadecimal.upper width q

def Operand.text : Operand → String
  | .register x => "V" ++ Hexadecimal.upper 1 (x.val : Rat)
  | .target address => hexText 3 (address.val : Rat)
  | .byte value => hexText 2 (value.toNat : Rat)
  | .count rows => toString rows.val
  | .index => "I"
  | .memory => "[I]"
  | .delay => "DT"
  | .sound => "ST"
  | .key => "K"
  | .glyph => "F"
  | .decimal => "B"

def Line.text (line : Line) : String :=
  match line.operands with
  | [] => line.mnemonic.text
  | operands => line.mnemonic.text ++ " " ++ ", ".intercalate (operands.map Operand.text)

end Assembly

/-- The assembly text of an instruction. -/
def Instruction.text (ins : Instruction) : String := ins.line.text

/-- The assembly text of a word, a data directive where it stands for no instruction. -/
def Word.text (w : Int) : String :=
  match Instruction.decode w with
  | some ins => ins.text
  | none => "DW " ++ Assembly.hexText 4 (w : Rat)

/-! ## Listings -/

/-- One entry of a listing: where a word stands, the word, and its text. -/
structure ListingEntry where
  address : Rat
  word : Nat
  text : String
deriving DecidableEq, Repr

/-- The entries of an image whose first byte stands at `origin`, `offset` bytes of which
are behind us.  A last byte without a partner has no entry. -/
def listingFrom (origin : Rat) : Nat → List Rat → List ListingEntry
  | offset, high :: low :: rest =>
    let word := Word.ofBytes (wrapByte high) (wrapByte low)
    { address := Binary64.add origin offset, word, text := Word.text word } ::
      listingFrom origin (offset + 2) rest
  | _, _ => []

/-- The listing of an image: one entry for each pair of its bytes. -/
def listing (image : List Rat) (origin : Rat) : List ListingEntry :=
  listingFrom origin 0 image

end Chip8
