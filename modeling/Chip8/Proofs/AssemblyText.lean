/-
# Chip8.Proofs.AssemblyText -- a line of assembly is told by its text

The text of a line can be taken apart again.  Spaces separate the mnemonic and the operands
and no part holds a space or a comma, so `parts`, which splits at spaces and drops commas,
gives the parts back (`parts_text`).  Each part is told by its own text: mnemonics are all
different, and `Operand.ofText?` reads an operand back (`ofText?_text`).  Hence
`Line.text_injective`.  A data directive is not the text of any line (`text_ne_data`).

An instruction is told by its line up to the register that a shift carries and does not
use.  `Instruction.plain` sets that register to V0, `Instruction.ofLine?` assembles a line,
and `text_eq_iff_plain` says that two instructions have one text exactly if they are the
same when made plain.
-/
import Chip8.Instruction.Assembly
import Chip8.Proofs.DigitText

set_option autoImplicit false

namespace Chip8

namespace Assembly

open Hexadecimal (capital capitals)

/-! ## Texts as characters -/

theorem hexText_natCast {width n : Nat} (fits : n < 16 ^ (width + 1)) (small : n < 65536) :
    (hexText (width + 1) (n : Rat)).toList = '0' :: 'x' :: capitals (width + 1) n := by
  rw [hexText, String.toList_append, Hexadecimal.upper_natCast fits small]
  rfl

theorem text_register (x : Register) :
    (Operand.register x).text.toList = 'V' :: capitals 1 x.val := by
  have digit : x.val < 16 ^ (0 + 1) := x.isLt
  rw [Operand.text, String.toList_append, Hexadecimal.upper_natCast digit (by omega)]
  rfl

theorem text_target (address : Target) :
    (Operand.target address).text.toList = '0' :: 'x' :: capitals 3 address.val := by
  have inside : address.val < 16 ^ (2 + 1) := address.isLt
  exact hexText_natCast inside (by omega)

theorem text_byte (value : UInt8) :
    (Operand.byte value).text.toList = '0' :: 'x' :: capitals 2 value.toNat := by
  have inside : value.toNat < 16 ^ (1 + 1) := value.toNat_lt
  exact hexText_natCast inside (by omega)

/-! ## Operands -/

/-- The operand that a text stands for.  Three digits behind `0x` are an address, two a
byte, and digits without `0x` a count. -/
def Operand.ofText? : List Char → Option Operand
  | ['I'] => some .index
  | ['K'] => some .key
  | ['F'] => some .glyph
  | ['B'] => some .decimal
  | ['D', 'T'] => some .delay
  | ['S', 'T'] => some .sound
  | '[' :: _ => some .memory
  | 'V' :: digits => (Numeral.digits? 16 digits 0).map fun n => .register (Fin.ofNat 16 n)
  | '0' :: 'x' :: digits =>
    (Numeral.digits? 16 digits 0).map fun n =>
      if digits.length = 3 then .target (Fin.ofNat 4096 n) else .byte (UInt8.ofNat n)
  | digits => (Numeral.digits? 10 digits 0).map fun n => .count (Fin.ofNat 16 n)

theorem ofText?_count : ∀ rows : Fin 16,
    Operand.ofText? (Operand.count rows).text.toList = some (.count rows) := by
  decide +kernel

/-- **An operand is read back from its text.** -/
theorem ofText?_text (operand : Operand) :
    Operand.ofText? operand.text.toList = some operand := by
  cases operand with
  | register x =>
    have digit := x.isLt
    rw [text_register, Operand.ofText?, Hexadecimal.digits?_capitals (by omega)]
    simp
  | target address =>
    have inside := address.isLt
    rw [text_target, Operand.ofText?, Hexadecimal.digits?_capitals (by omega)]
    simp [Hexadecimal.length_capitals]
  | byte value =>
    have inside := value.toNat_lt
    rw [text_byte, Operand.ofText?, Hexadecimal.digits?_capitals (by omega)]
    simp [Hexadecimal.length_capitals]
  | count rows => exact ofText?_count rows
  | _ => rfl

theorem Operand.text_injective :
    Function.Injective fun operand : Operand => operand.text.toList := by
  intro a b same
  have read : Operand.ofText? a.text.toList = Operand.ofText? b.text.toList :=
    congrArg Operand.ofText? same
  rw [ofText?_text, ofText?_text] at read
  exact Option.some.inj read

/-! ## Parts of a line -/

/-- A text without the characters that hold the parts of a line apart. -/
def Unbroken (text : List Char) : Prop := ' ' ∉ text ∧ ',' ∉ text

instance (text : List Char) : Decidable (Unbroken text) :=
  inferInstanceAs (Decidable (' ' ∉ text ∧ ',' ∉ text))

/-- What stands between the spaces of a text, without commas. -/
def parts (text : List Char) : List (List Char) := (text.splitOn ' ').map (·.filter (· ≠ ','))

/-- Each text but the last with a comma behind it. -/
def withCommas : List (List Char) → List (List Char)
  | [] => []
  | [last] => [last]
  | first :: second :: rest => (first ++ [',']) :: withCommas (second :: rest)

/-- A head and operands behind it, written as a line is. -/
def written (head : List Char) : List (List Char) → List Char
  | [] => head
  | first :: rest => head ++ [' '] ++ [',', ' '].intercalate (first :: rest)

theorem withCommas_ne_nil (first : List Char) (rest : List (List Char)) :
    withCommas (first :: rest) ≠ [] := by
  cases rest <;> simp [withCommas]

theorem intercalate_withCommas (texts : List (List Char)) :
    [',', ' '].intercalate texts = [' '].intercalate (withCommas texts) := by
  induction texts with
  | nil => rfl
  | cons first rest ih =>
    cases rest with
    | nil => rfl
    | cons second rest =>
      rw [withCommas, List.intercalate_cons_cons,
        List.intercalate_cons_of_ne_nil (withCommas_ne_nil second rest), ← ih]
      simp

theorem filter_of_unbroken {text : List Char} (whole : Unbroken text) :
    text.filter (· ≠ ',') = text := by
  rw [List.filter_eq_self]
  intro c member
  simpa using fun comma : c = ',' => whole.2 (comma ▸ member)

/-- Commas bring no spaces with them, and go when commas are dropped. -/
theorem withCommas_spec {texts : List (List Char)} (whole : ∀ text ∈ texts, Unbroken text) :
    (∀ text ∈ withCommas texts, ' ' ∉ text) ∧
      (withCommas texts).map (·.filter (· ≠ ',')) = texts := by
  induction texts with
  | nil => simp [withCommas]
  | cons first rest ih =>
    have head := whole first List.mem_cons_self
    obtain ⟨spaceless, dropped⟩ := ih fun text member => whole text (List.mem_cons_of_mem _ member)
    cases rest with
    | nil =>
      refine ⟨?_, ?_⟩
      · simpa [withCommas] using head.1
      · rw [withCommas, List.map_singleton, filter_of_unbroken head]
    | cons second rest =>
      rw [withCommas]
      refine ⟨?_, ?_⟩
      · intro text member
        rcases List.mem_cons.mp member with rfl | behind
        · simpa using head.1
        · exact spaceless text behind
      · rw [List.map_cons, dropped, List.filter_append, filter_of_unbroken head]
        simp

/-- **The parts of a written line are its head and its operands.** -/
theorem parts_written {head : List Char} {operands : List (List Char)} (first : Unbroken head)
    (whole : ∀ text ∈ operands, Unbroken text) :
    parts (written head operands) = head :: operands := by
  obtain ⟨spaceless, dropped⟩ := withCommas_spec whole
  have joined : written head operands = [' '].intercalate (head :: withCommas operands) := by
    cases operands with
    | nil => simp [written, withCommas]
    | cons operand rest =>
      rw [written, intercalate_withCommas,
        List.intercalate_cons_of_ne_nil (withCommas_ne_nil operand rest)]
  have pieces : (written head operands).splitOn ' ' = head :: withCommas operands := by
    rw [joined]
    refine List.splitOn_intercalate ' ' ?_ (List.cons_ne_nil _ _)
    intro text member
    rcases List.mem_cons.mp member with rfl | behind
    · exact first.1
    · exact spaceless text behind
  rw [parts, pieces, List.map_cons, dropped, filter_of_unbroken first]

/-! ## Lines -/

theorem unbroken_capitals (width n : Nat) : Unbroken (capitals width n) := by
  refine ⟨fun member => ?_, fun member => ?_⟩
  · obtain ⟨d, digit, same⟩ := Hexadecimal.mem_capitals member
    exact (Hexadecimal.capital_ne_separator d digit).1 same.symm
  · obtain ⟨d, digit, same⟩ := Hexadecimal.mem_capitals member
    exact (Hexadecimal.capital_ne_separator d digit).2 same.symm

theorem unbroken_operand (operand : Operand) : Unbroken operand.text.toList := by
  cases operand with
  | register x =>
    rw [text_register]
    simpa [Unbroken] using unbroken_capitals 1 x.val
  | target address =>
    rw [text_target]
    simpa [Unbroken] using unbroken_capitals 3 address.val
  | byte value =>
    rw [text_byte]
    simpa [Unbroken] using unbroken_capitals 2 value.toNat
  | count rows =>
    have digits : ∀ rows : Fin 16, Unbroken (Operand.count rows).text.toList := by
      decide +kernel
    exact digits rows
  | _ => decide

theorem unbroken_mnemonic (mnemonic : Mnemonic) : Unbroken mnemonic.text.toList := by
  cases mnemonic <;> decide

theorem text_written (line : Line) :
    line.text.toList =
      written line.mnemonic.text.toList (line.operands.map (·.text.toList)) := by
  obtain ⟨mnemonic, operands⟩ := line
  cases operands with
  | nil => rfl
  | cons operand rest =>
    rw [Line.text, String.toList_append, String.toList_append, String.toList_intercalate,
      List.map_map]
    rfl

/-- **The parts of a line's text are the texts of its mnemonic and its operands.** -/
theorem parts_text (line : Line) :
    parts line.text.toList = line.mnemonic.text.toList :: line.operands.map (·.text.toList) := by
  rw [text_written]
  refine parts_written (unbroken_mnemonic _) ?_
  intro text member
  obtain ⟨operand, -, rfl⟩ := List.mem_map.mp member
  exact unbroken_operand operand

/-- Every mnemonic. -/
def Mnemonic.all : List Mnemonic :=
  [.cls, .ret, .jp, .call, .se, .sne, .ld, .add, .or, .and, .xor, .sub, .shr, .subn, .shl,
    .rnd, .drw, .skp, .sknp]

theorem Mnemonic.text_injective :
    Function.Injective fun mnemonic : Mnemonic => mnemonic.text.toList := by
  have found (mnemonic : Mnemonic) :
      Mnemonic.all.find? (·.text.toList = mnemonic.text.toList) = some mnemonic := by
    cases mnemonic <;> decide
  intro a b same
  have both : Mnemonic.all.find? (·.text.toList = a.text.toList) =
      Mnemonic.all.find? (·.text.toList = b.text.toList) := by
    simp only [same]
  rw [found, found] at both
  exact Option.some.inj both

/-- **A line is told by its text.** -/
theorem Line.text_injective : Function.Injective Line.text := by
  intro a b same
  have split := parts_text a
  rw [same, parts_text b] at split
  obtain ⟨mnemonics, operands⟩ := List.cons.inj split
  have mnemonic : b.mnemonic = a.mnemonic := Mnemonic.text_injective mnemonics
  have listed : b.operands = a.operands :=
    (List.map_inj_right fun _ _ same => Operand.text_injective same).mp operands
  cases a
  cases b
  simp_all

/-! ## Data directives -/

theorem data_text {w : Nat} (word : w < 65536) :
    ("DW " ++ hexText 4 (w : Rat)).toList = written "DW".toList ['0' :: 'x' :: capitals 4 w] := by
  rw [String.toList_append, hexText_natCast (by omega) word]
  simp [written]

/-- A data directive is not the text of any line: its head is no mnemonic. -/
theorem text_ne_data (line : Line) {w : Nat} (word : w < 65536) :
    line.text ≠ "DW " ++ hexText 4 (w : Rat) := by
  intro same
  have split := parts_text line
  rw [same, data_text word, parts_written (by decide)] at split
  · have other : "DW".toList ≠ line.mnemonic.text.toList := by
      cases line.mnemonic <;> decide
    exact other (List.cons.inj split).1
  · intro text member
    rw [List.mem_singleton] at member
    simpa [member, Unbroken] using unbroken_capitals 4 w

/-- A data directive is told by its text. -/
theorem data_text_inj {v w : Nat} (hv : v < 65536) (hw : w < 65536) :
    "DW " ++ hexText 4 (v : Rat) = "DW " ++ hexText 4 (w : Rat) ↔ v = w := by
  have digits : capitals 4 v = capitals 4 w ↔ v = w := Hexadecimal.capitals_inj hv hw
  rw [← String.toList_inj, data_text hv, data_text hw, ← digits]
  simp [written]

end Assembly

/-! ## Instructions -/

namespace Instruction

open Assembly

/-- The instruction with V0 in place of a register that it carries and does not use. -/
def plain : Instruction → Instruction
  | .shiftRight x _ => .shiftRight x firstRegister
  | .shiftLeft x _ => .shiftLeft x firstRegister
  | ins => ins

/-- The plain instruction that a line stands for. -/
def ofLine? : Line → Option Instruction
  | ⟨.cls, []⟩ => some .clear
  | ⟨.ret, []⟩ => some .ret
  | ⟨.jp, [.target a]⟩ => some (.jump a)
  | ⟨.jp, [.register _, .target a]⟩ => some (.jumpOffset a)
  | ⟨.call, [.target a]⟩ => some (.call a)
  | ⟨.se, [.register x, .byte b]⟩ => some (.skipEqByte x b)
  | ⟨.se, [.register x, .register y]⟩ => some (.skipEq x y)
  | ⟨.sne, [.register x, .byte b]⟩ => some (.skipNeByte x b)
  | ⟨.sne, [.register x, .register y]⟩ => some (.skipNe x y)
  | ⟨.ld, [.register x, .byte b]⟩ => some (.loadByte x b)
  | ⟨.ld, [.register x, .register y]⟩ => some (.copy x y)
  | ⟨.ld, [.register x, .delay]⟩ => some (.readTimer x)
  | ⟨.ld, [.register x, .key]⟩ => some (.waitKey x)
  | ⟨.ld, [.register x, .memory]⟩ => some (.load x)
  | ⟨.ld, [.index, .target a]⟩ => some (.loadIndex a)
  | ⟨.ld, [.delay, .register x]⟩ => some (.setTimer x)
  | ⟨.ld, [.sound, .register x]⟩ => some (.setSound x)
  | ⟨.ld, [.glyph, .register x]⟩ => some (.glyphIndex x)
  | ⟨.ld, [.decimal, .register x]⟩ => some (.storeDecimal x)
  | ⟨.ld, [.memory, .register x]⟩ => some (.store x)
  | ⟨.add, [.register x, .byte b]⟩ => some (.addByte x b)
  | ⟨.add, [.register x, .register y]⟩ => some (.add x y)
  | ⟨.add, [.index, .register x]⟩ => some (.addIndex x)
  | ⟨.or, [.register x, .register y]⟩ => some (.or x y)
  | ⟨.and, [.register x, .register y]⟩ => some (.and x y)
  | ⟨.xor, [.register x, .register y]⟩ => some (.xor x y)
  | ⟨.sub, [.register x, .register y]⟩ => some (.sub x y)
  | ⟨.subn, [.register x, .register y]⟩ => some (.subFrom x y)
  | ⟨.shr, [.register x]⟩ => some (.shiftRight x firstRegister)
  | ⟨.shl, [.register x]⟩ => some (.shiftLeft x firstRegister)
  | ⟨.rnd, [.register x, .byte b]⟩ => some (.random x b)
  | ⟨.drw, [.register x, .register y, .count n]⟩ => some (.draw x y n)
  | ⟨.skp, [.register x]⟩ => some (.skipPressed x)
  | ⟨.sknp, [.register x]⟩ => some (.skipReleased x)
  | _ => none

/-- **Assembling the line of an instruction gives it back, made plain.** -/
theorem ofLine?_line (ins : Instruction) : ofLine? ins.line = some ins.plain := by
  cases ins <;> rfl

theorem line_plain (ins : Instruction) : ins.plain.line = ins.line := by
  cases ins <;> rfl

/-- **Two instructions have one text exactly if they are the same when made plain.** -/
theorem text_eq_iff_plain {i j : Instruction} : i.text = j.text ↔ i.plain = j.plain := by
  constructor
  · intro same
    have lines : i.line = j.line := Line.text_injective same
    have read := ofLine?_line i
    rw [lines, ofLine?_line j] at read
    exact (Option.some.inj read).symm
  · intro same
    rw [text, text, ← line_plain i, ← line_plain j, same]

end Instruction

/-! ## Words -/

namespace Word

variable {w : Nat} {ins : Instruction}

theorem text_of_some (found : Instruction.decode w = some ins) : text w = ins.text := by
  rw [text, found]

theorem text_of_none (unknown : Instruction.decode w = none) :
    text w = "DW " ++ Assembly.hexText 4 (w : Rat) := by
  rw [text, unknown]
  rfl

end Word

end Chip8
