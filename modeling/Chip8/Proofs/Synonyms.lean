/-
# Chip8.Proofs.Synonyms -- words that are written alike

A word that stands for an instruction is the word that encodes it, unless it clears the
screen or returns: those two ignore one digit (`encode_of_decode`).  The text of a word
leaves out that digit and the unused register of a shift, and nothing else, so two words are
written alike exactly if they are the same or differ only there.  `Word.Synonyms` says this
with the digits of the two words.

What the text leaves out does not count when the instruction is executed
(`execute_plain`), so words that are written alike do the same.  `text_eq_iff_synonyms` is
the statement about all words.
-/
import Chip8.Machine.Step
import Chip8.Proofs.AssemblyText

set_option autoImplicit false

namespace Chip8

/-! ## Digits of a word -/

namespace Word

variable {w : Nat}

theorem family_natCast (word : w < 65536) : (lastDigit ((w : Int) / 4096)).val = w / 4096 := by
  simp only [lastDigit]
  omega

theorem second_natCast (w : Nat) : (lastDigit ((w : Int) / 256)).val = w / 256 % 16 := by
  simp only [lastDigit]
  omega

theorem third_natCast (w : Nat) : (lastDigit ((w : Int) / 16)).val = w / 16 % 16 := by
  simp only [lastDigit]
  omega

theorem last_natCast (w : Nat) : (lastDigit (w : Int)).val = w % 16 := by
  simp only [lastDigit]
  omega

theorem lowByte_natCast (w : Nat) : (lowByte (w : Int)).toNat = w % 256 := by
  simp only [lowByte, UInt8.toNat_ofNat']
  omega

theorem target_natCast (w : Nat) : (target (w : Int)).val = w % 4096 := by
  simp only [target]
  omega

/-- `0?E0` -/
def Clears (w : Nat) : Prop := w / 4096 = 0 ∧ w % 256 = 0xe0

/-- `0?EE` -/
def Returns (w : Nat) : Prop := w / 4096 = 0 ∧ w % 256 = 0xee

/-- `8x?6` -/
def Halves (x : Nat) (w : Nat) : Prop := w / 4096 = 8 ∧ w / 256 % 16 = x ∧ w % 16 = 6

/-- `8x?E` -/
def Doubles (x : Nat) (w : Nat) : Prop := w / 4096 = 8 ∧ w / 256 % 16 = x ∧ w % 16 = 0xe

/-- Words that differ only in a digit that their text leaves out. -/
def Synonyms (v w : Nat) : Prop :=
  v = w ∨ (Clears v ∧ Clears w) ∨ (Returns v ∧ Returns w) ∨
    (∃ x, Halves x v ∧ Halves x w) ∨ ∃ x, Doubles x v ∧ Doubles x w

end Word

namespace Instruction

variable {v w : Nat} {ins i j : Instruction}

/-! ## Decoding and encoding -/

theorem encode_of_decodeArithmetic {n : Nat} {x y : Register}
    (found : decodeArithmetic n x y = some ins) : encode ins = wordXY 0x8 x y n := by
  unfold decodeArithmetic at found
  split at found <;> cases found <;> rfl

theorem encode_of_decodeDevice {n : Nat} {x : Register} (found : decodeDevice n x = some ins) :
    encode ins = wordX 0xf x n := by
  unfold decodeDevice at found
  split at found <;> cases found <;> rfl

/-- A word that stands for an instruction encodes it, or ignores a digit. -/
theorem decode_cases (word : w < 65536) (found : decode w = some ins) :
    (ins = .clear ∧ Word.Clears w) ∨ (ins = .ret ∧ Word.Returns w) ∨ encode ins = w := by
  have x := Word.second_natCast w
  have y := Word.third_natCast w
  have n := Word.last_natCast w
  have byte := Word.lowByte_natCast w
  have target := Word.target_natCast w
  simp only [decode, Word.family_natCast word, byte, n] at found
  split at found
  case h_1 family =>
    split at found
    case h_1 low =>
      cases found
      exact Or.inl ⟨rfl, family, low⟩
    case h_2 low =>
      cases found
      exact Or.inr (Or.inl ⟨rfl, family, low⟩)
    case h_3 => cases found
  case h_6 | h_10 =>
    split at found
    · cases found
      refine Or.inr (Or.inr ?_)
      simp only [encode, wordXY, x, y]
      omega
    · cases found
  case h_9 =>
    refine Or.inr (Or.inr ?_)
    rw [encode_of_decodeArithmetic found, wordXY, x, y]
    omega
  case h_15 =>
    split at found
    case h_3 => cases found
    all_goals
      cases found
      refine Or.inr (Or.inr ?_)
      simp only [encode, wordX, x]
      omega
  case h_16 =>
    have family : w / 4096 = 0xf := by grind
    refine Or.inr (Or.inr ?_)
    rw [encode_of_decodeDevice found, wordX, x]
    omega
  all_goals
    cases found
    refine Or.inr (Or.inr ?_)
    simp only [encode, wordX, wordXY, x, y, n, byte, target]
    omega

theorem decode_eq_clear_iff (word : w < 65536) : decode w = some .clear ↔ Word.Clears w := by
  constructor
  · intro found
    rcases decode_cases word found with ⟨-, clears⟩ | ⟨impossible, -⟩ | rfl
    · exact clears
    · cases impossible
    · exact ⟨rfl, rfl⟩
  · rintro ⟨family, low⟩
    simp only [decode, Word.family_natCast word, Word.lowByte_natCast, family, low]

theorem decode_eq_ret_iff (word : w < 65536) : decode w = some .ret ↔ Word.Returns w := by
  constructor
  · intro found
    rcases decode_cases word found with ⟨impossible, -⟩ | ⟨-, returns⟩ | rfl
    · cases impossible
    · exact returns
    · exact ⟨rfl, rfl⟩
  · rintro ⟨family, low⟩
    simp only [decode, Word.family_natCast word, Word.lowByte_natCast, family, low]

/-- **A word that stands for anything but a clear or a return encodes it.** -/
theorem encode_of_decode (word : w < 65536) (found : decode w = some ins)
    (notClear : ins ≠ .clear) (notRet : ins ≠ .ret) : encode ins = w := by
  rcases decode_cases word found with ⟨clear, -⟩ | ⟨ret, -⟩ | encoded
  · exact absurd clear notClear
  · exact absurd ret notRet
  · exact encoded

/-- Words for one instruction are the same word, or both clear or both return. -/
theorem eq_of_decode (hv : v < 65536) (hw : w < 65536) (foundV : decode v = some ins)
    (foundW : decode w = some ins) : v = w ∨ ins = .clear ∨ ins = .ret := by
  by_cases clear : ins = .clear
  · exact Or.inr (Or.inl clear)
  by_cases ret : ins = .ret
  · exact Or.inr (Or.inr ret)
  left
  calc v = encode ins := (encode_of_decode hv foundV clear ret).symm
    _ = w := encode_of_decode hw foundW clear ret

theorem decode_of_halves {x : Nat} (word : w < 65536) (halves : Word.Halves x w) :
    ∃ r y : Register, r.val = x ∧ decode w = some (.shiftRight r y) := by
  obtain ⟨family, second, last⟩ := halves
  refine ⟨Word.lastDigit ((w : Int) / 256), Word.lastDigit ((w : Int) / 16), ?_, ?_⟩
  · rw [Word.second_natCast, second]
  · simp only [decode, Word.family_natCast word, Word.last_natCast, family, last,
      decodeArithmetic]

theorem decode_of_doubles {x : Nat} (word : w < 65536) (doubles : Word.Doubles x w) :
    ∃ r y : Register, r.val = x ∧ decode w = some (.shiftLeft r y) := by
  obtain ⟨family, second, last⟩ := doubles
  refine ⟨Word.lastDigit ((w : Int) / 256), Word.lastDigit ((w : Int) / 16), ?_, ?_⟩
  · rw [Word.second_natCast, second]
  · simp only [decode, Word.family_natCast word, Word.last_natCast, family, last,
      decodeArithmetic]

/-! ## What the text leaves out -/

/-- Executing an instruction made plain is executing the instruction. -/
theorem execute_plain (m : Machine) (now : Rat) (here : Nat) (ins : Instruction) :
    m.execute now here ins.plain = m.execute now here ins := by
  cases ins <;> rfl

theorem plain_eq_shiftRight {x : Register} (same : ins.plain = .shiftRight x firstRegister) :
    ∃ y, ins = .shiftRight x y := by
  cases ins <;> simp_all [plain]

theorem plain_eq_shiftLeft {x : Register} (same : ins.plain = .shiftLeft x firstRegister) :
    ∃ y, ins = .shiftLeft x y := by
  cases ins <;> simp_all [plain]

/-- Only shifts are changed by making them plain. -/
theorem plain_cases (ins : Instruction) :
    (∃ x y, ins = .shiftRight x y) ∨ (∃ x y, ins = .shiftLeft x y) ∨ ins.plain = ins := by
  cases ins <;> simp [plain]

/-- Instructions that are the same when made plain are the same, or shifts of one register. -/
theorem plain_eq_plain (same : i.plain = j.plain) :
    i = j ∨ (∃ x y z, i = .shiftRight x y ∧ j = .shiftRight x z) ∨
      ∃ x y z, i = .shiftLeft x y ∧ j = .shiftLeft x z := by
  rcases plain_cases i with ⟨x, y, rfl⟩ | ⟨x, y, rfl⟩ | unchanged
  · obtain ⟨z, rfl⟩ := plain_eq_shiftRight same.symm
    exact Or.inr (Or.inl ⟨x, y, z, rfl, rfl⟩)
  · obtain ⟨z, rfl⟩ := plain_eq_shiftLeft same.symm
    exact Or.inr (Or.inr ⟨x, y, z, rfl, rfl⟩)
  · rcases plain_cases j with ⟨x, z, rfl⟩ | ⟨x, z, rfl⟩ | unchanged'
    · obtain ⟨y, rfl⟩ := plain_eq_shiftRight same
      exact Or.inr (Or.inl ⟨x, y, z, rfl, rfl⟩)
    · obtain ⟨y, rfl⟩ := plain_eq_shiftLeft same
      exact Or.inr (Or.inr ⟨x, y, z, rfl, rfl⟩)
    · rw [unchanged, unchanged'] at same
      exact Or.inl same

end Instruction

namespace Word

open Instruction

variable {v w : Nat} {i j : Instruction}

/-! ## Words written alike -/

/-- A word for a shift to the right has the digits of one. -/
theorem halves_of_decode {x y : Register} (word : w < 65536)
    (found : decode w = some (.shiftRight x y)) : Halves x.val w := by
  have digits := encode_of_decode word found nofun nofun
  simp only [encode, wordXY] at digits
  unfold Halves
  omega

/-- A word for a shift to the left has the digits of one. -/
theorem doubles_of_decode {x y : Register} (word : w < 65536)
    (found : decode w = some (.shiftLeft x y)) : Doubles x.val w := by
  have digits := encode_of_decode word found nofun nofun
  simp only [encode, wordXY] at digits
  unfold Doubles
  omega

/-- Words for one instruction are synonyms: if it ignores no digit they are the same. -/
theorem synonyms_of_decode (hv : v < 65536) (hw : w < 65536) (foundV : decode v = some i)
    (foundW : decode w = some i) : Synonyms v w := by
  rcases eq_of_decode hv hw foundV foundW with same | rfl | rfl
  · exact Or.inl same
  · exact Or.inr (Or.inl ⟨(decode_eq_clear_iff hv).mp foundV, (decode_eq_clear_iff hw).mp foundW⟩)
  · exact Or.inr (Or.inr (Or.inl
      ⟨(decode_eq_ret_iff hv).mp foundV, (decode_eq_ret_iff hw).mp foundW⟩))

/-- Words of instructions that are the same when made plain are synonyms. -/
theorem synonyms_of_plain (hv : v < 65536) (hw : w < 65536) (foundV : decode v = some i)
    (foundW : decode w = some j) (same : i.plain = j.plain) : Synonyms v w := by
  rcases plain_eq_plain same with rfl | ⟨x, y, z, rfl, rfl⟩ | ⟨x, y, z, rfl, rfl⟩
  · exact synonyms_of_decode hv hw foundV foundW
  · exact Or.inr (Or.inr (Or.inr (Or.inl
      ⟨x.val, halves_of_decode hv foundV, halves_of_decode hw foundW⟩)))
  · exact Or.inr (Or.inr (Or.inr (Or.inr
      ⟨x.val, doubles_of_decode hv foundV, doubles_of_decode hw foundW⟩)))

/-- Synonyms stand for instructions that are the same when made plain, if they are not the
same word. -/
theorem Synonyms.plain (synonyms : Synonyms v w) (hv : v < 65536) (hw : w < 65536) :
    v = w ∨ ∃ i j, decode v = some i ∧ decode w = some j ∧ i.plain = j.plain := by
  rcases synonyms with same | ⟨clearsV, clearsW⟩ | ⟨returnsV, returnsW⟩ |
    ⟨x, halvesV, halvesW⟩ | ⟨x, doublesV, doublesW⟩
  · exact Or.inl same
  · exact Or.inr ⟨_, _, (decode_eq_clear_iff hv).mpr clearsV,
      (decode_eq_clear_iff hw).mpr clearsW, rfl⟩
  · exact Or.inr ⟨_, _, (decode_eq_ret_iff hv).mpr returnsV,
      (decode_eq_ret_iff hw).mpr returnsW, rfl⟩
  · obtain ⟨r, y, register, foundV⟩ := decode_of_halves hv halvesV
    obtain ⟨r', z, register', foundW⟩ := decode_of_halves hw halvesW
    obtain rfl := Fin.ext (register.trans register'.symm)
    exact Or.inr ⟨_, _, foundV, foundW, rfl⟩
  · obtain ⟨r, y, register, foundV⟩ := decode_of_doubles hv doublesV
    obtain ⟨r', z, register', foundW⟩ := decode_of_doubles hw doublesW
    obtain rfl := Fin.ext (register.trans register'.symm)
    exact Or.inr ⟨_, _, foundV, foundW, rfl⟩

/-- What two words written alike stand for. -/
theorem decode_of_text_eq (hv : v < 65536) (hw : w < 65536) (alike : text v = text w) :
    (v = w ∧ decode v = none) ∨
      ∃ i j, decode v = some i ∧ decode w = some j ∧ i.plain = j.plain := by
  cases foundV : decode v with
  | none =>
    rw [text_of_none foundV] at alike
    cases foundW : decode w with
    | none =>
      rw [text_of_none foundW] at alike
      exact Or.inl ⟨(Assembly.data_text_inj hv hw).mp alike, rfl⟩
    | some j =>
      rw [text_of_some foundW] at alike
      exact absurd alike.symm (Assembly.text_ne_data j.line hv)
  | some i =>
    rw [text_of_some foundV] at alike
    cases foundW : decode w with
    | none =>
      rw [text_of_none foundW] at alike
      exact absurd alike (Assembly.text_ne_data i.line hw)
    | some j =>
      rw [text_of_some foundW] at alike
      exact Or.inr ⟨i, j, rfl, rfl, text_eq_iff_plain.mp alike⟩

/-- **Two words are written alike exactly if they are synonyms, and then they do the same.**
Either they are one word that stands for no instruction, or they stand for instructions with
the same effect on every machine, be that the machine left and the place where the program
goes on or the fault. -/
theorem text_eq_iff_synonyms (hv : v < 65536) (hw : w < 65536) :
    (text v = text w ↔ Synonyms v w) ∧
      (text v = text w →
        (v = w ∧ decode v = none) ∨
          ∃ i j, decode v = some i ∧ decode w = some j ∧
            ∀ (m : Machine) (now : Rat) (here : Nat),
              m.execute now here i = m.execute now here j) := by
  refine ⟨⟨?_, ?_⟩, ?_⟩
  · intro alike
    rcases decode_of_text_eq hv hw alike with ⟨same, -⟩ | ⟨i, j, foundV, foundW, plain⟩
    · exact Or.inl same
    · exact synonyms_of_plain hv hw foundV foundW plain
  · intro synonyms
    rcases synonyms.plain hv hw with rfl | ⟨i, j, foundV, foundW, plain⟩
    · rfl
    · rw [text_of_some foundV, text_of_some foundW]
      exact text_eq_iff_plain.mpr plain
  · intro alike
    rcases decode_of_text_eq hv hw alike with single | ⟨i, j, foundV, foundW, plain⟩
    · exact Or.inl single
    · refine Or.inr ⟨i, j, foundV, foundW, ?_⟩
      intro m now here
      rw [← execute_plain m now here i, plain, execute_plain]

/-- `8126` and `81F6` are both `SHR V1`. -/
theorem text_eq_iff_synonyms_shift :
    text 0x8126 = text 0x81f6 ∧ ∃ i j, decode 0x8126 = some i ∧ decode 0x81f6 = some j ∧
      i ≠ j ∧ ∀ (m : Machine) (now : Rat) (here : Nat),
        m.execute now here i = m.execute now here j := by
  have hv : 0x8126 < 65536 := by decide
  have hw : 0x81f6 < 65536 := by decide
  have synonyms : Synonyms 0x8126 0x81f6 :=
    Or.inr (Or.inr (Or.inr (Or.inl ⟨1, ⟨rfl, rfl, rfl⟩, ⟨rfl, rfl, rfl⟩⟩)))
  have alike := (text_eq_iff_synonyms hv hw).1.mpr synonyms
  rcases (text_eq_iff_synonyms hv hw).2 alike with ⟨different, -⟩ | ⟨i, j, foundV, foundW, same⟩
  · cases different
  · refine ⟨alike, i, j, foundV, foundW, ?_, same⟩
    rintro rfl
    have other : decode 0x8126 ≠ decode 0x81f6 := by decide
    exact other (foundV.trans foundW.symm)

end Word

end Chip8
