/-
# Chip8.Proofs.Encoding -- decoding undoes encoding

`encode` puts the operands of an instruction into the digits of a word, and decoding takes them
out again: a word made of a family, one or two registers and what is left of its digits has just
these fields (`second_wordX` and the lemmas beside it), so every instruction is decoded from its
encoding (`decode_encode`).

The other way the word is found again from the instruction, unless it clears the screen or returns
(`encode_of_decode`); no other instruction has two words (`eq_of_decode`).  Of a number of any
size and sign only the lowest sixteen bits count (`decode_emod`).  `decode_is_exact` puts the
statements together.
-/
import Chip8.Proofs.Synonyms

set_option autoImplicit false

namespace Chip8.Instruction

/-! ## Fields of an encoding -/

section Fields

variable {family byte n : Nat} {x y : Register} {t : Target} {base : Int}

@[simp] theorem family_wordX (digit : family < 16) (low : byte < 256) :
    (Word.lastDigit ((wordX family x byte : Nat) / 4096 : Int)).val = family := by
  simp only [Word.lastDigit, wordX]
  omega

@[simp] theorem second_wordX (low : byte < 256) :
    Word.lastDigit ((wordX family x byte : Nat) / 256 : Int) = x := by
  apply Fin.ext
  simp only [Word.lastDigit, wordX]
  omega

@[simp] theorem lowByte_wordX (low : byte < 256) :
    Word.lowByte (wordX family x byte : Nat) = UInt8.ofNat byte := by
  have rest : ((wordX family x byte : Nat) : Int) % 256 = byte := by
    simp only [wordX]
    omega
  rw [Word.lowByte, rest, Int.toNat_natCast]

@[simp] theorem family_wordXY (digit : family < 16) (last : n < 16) :
    (Word.lastDigit ((wordXY family x y n : Nat) / 4096 : Int)).val = family := by
  simp only [Word.lastDigit, wordXY]
  omega

@[simp] theorem second_wordXY (last : n < 16) :
    Word.lastDigit ((wordXY family x y n : Nat) / 256 : Int) = x := by
  apply Fin.ext
  simp only [Word.lastDigit, wordXY]
  omega

@[simp] theorem third_wordXY (last : n < 16) :
    Word.lastDigit ((wordXY family x y n : Nat) / 16 : Int) = y := by
  apply Fin.ext
  simp only [Word.lastDigit, wordXY]
  omega

@[simp] theorem last_wordXY (last : n < 16) :
    (Word.lastDigit (wordXY family x y n : Nat)).val = n := by
  simp only [Word.lastDigit, wordXY]
  omega

/-- The words of jumps and index loads have the address in all digits below the family. -/
@[simp] theorem family_add_target (aligned : base % 4096 = 0) (nonneg : 0 ≤ base)
    (word : base < 65536) :
    (Word.lastDigit ((base + (t.val : Int)) / 4096)).val = (base / 4096).toNat := by
  simp only [Word.lastDigit]
  omega

@[simp] theorem target_add_target (aligned : base % 4096 = 0) :
    Word.target (base + (t.val : Int)) = t := by
  apply Fin.ext
  simp only [Word.target]
  omega

end Fields

/-! ## Encoding and decoding -/

variable {v w : Nat} {ins : Instruction}

/-- Encodings have sixteen bits. -/
theorem encode_lt (ins : Instruction) : encode ins < 65536 := by
  cases ins with
  | clear | ret => decide
  | jump t | call t | loadIndex t | jumpOffset t =>
    simp only [encode]
    omega
  | skipEqByte x b | skipNeByte x b | loadByte x b | addByte x b | random x b =>
    have low := b.toNat_lt
    simp only [encode, wordX]
    omega
  | _ =>
    simp only [encode, wordX, wordXY]
    omega

/-- **Decoding undoes encoding.** -/
theorem decode_encode (ins : Instruction) : decode (encode ins) = some ins := by
  cases ins with
  | clear | ret => rfl
  | jump t | call t | loadIndex t | jumpOffset t => simp [decode, encode]
  | skipEqByte x b | skipNeByte x b | loadByte x b | addByte x b | random x b =>
    have low := b.toNat_lt
    simp [decode, encode, low]
  | skipEq x y | skipNe x y => simp [decode, encode]
  | copy x y | or x y | and x y | xor x y | add x y | sub x y | shiftRight x y | subFrom x y
  | shiftLeft x y => simp [decode, encode, decodeArithmetic]
  | draw x y rows => simp [decode, encode, Fin.ext_iff]
  | skipPressed x | skipReleased x => simp [decode, encode]
  | readTimer x | waitKey x | setTimer x | setSound x | addIndex x | glyphIndex x
  | storeDecimal x | store x | load x => simp [decode, encode, decodeDevice]

/-- Only the lowest sixteen bits of a number are decoded. -/
theorem decode_emod (w : Int) : decode (w % 65536) = decode w := by
  have family : Word.lastDigit (w % 65536 / 4096) = Word.lastDigit (w / 4096) := by
    simp only [Word.lastDigit, Fin.mk.injEq]
    omega
  have second : Word.lastDigit (w % 65536 / 256) = Word.lastDigit (w / 256) := by
    simp only [Word.lastDigit, Fin.mk.injEq]
    omega
  have third : Word.lastDigit (w % 65536 / 16) = Word.lastDigit (w / 16) := by
    simp only [Word.lastDigit, Fin.mk.injEq]
    omega
  have last : Word.lastDigit (w % 65536) = Word.lastDigit w := by
    simp only [Word.lastDigit, Fin.mk.injEq]
    omega
  have byte : Word.lowByte (w % 65536) = Word.lowByte w := by
    have same : w % 65536 % 256 = w % 256 := by omega
    rw [Word.lowByte, Word.lowByte, same]
  have target : Word.target (w % 65536) = Word.target w := by
    simp only [Word.target, Fin.mk.injEq]
    omega
  simp only [decode, family, second, third, last, byte, target]

/-- **Decoding is exact.**  Every instruction has a word of sixteen bits that is decoded to it.
Numbers of any size and sign are decoded as their lowest sixteen bits.  Two words for one
instruction are the same, unless both clear the screen or both return; a word does that exactly
if its first digit is zero and its low byte is that of the instruction, whatever the digit in
between.  And a word of another family that stands for an instruction is the one that encodes
it. -/
theorem decode_is_exact :
    (∀ ins : Instruction, encode ins < 65536 ∧ decode (encode ins) = some ins) ∧
    (∀ w : Int, decode w = decode (w % 65536)) ∧
    (∀ (v w : Nat) (ins : Instruction), v < 65536 → w < 65536 → decode v = some ins →
      decode w = some ins → v = w ∨ ins = .clear ∨ ins = .ret) ∧
    (∀ w : Nat, w < 65536 →
      (decode w = some .clear ↔ w / 4096 = 0 ∧ w % 256 = 0xe0) ∧
        (decode w = some .ret ↔ w / 4096 = 0 ∧ w % 256 = 0xee)) ∧
    ∀ (w : Nat) (ins : Instruction), w < 65536 → w / 4096 ≠ 0 → decode w = some ins →
      encode ins = w := by
  refine ⟨?_, ?_, ?_, ?_, ?_⟩
  · intro ins
    exact ⟨encode_lt ins, decode_encode ins⟩
  · intro w
    exact (decode_emod w).symm
  · intro v w ins hv hw foundV foundW
    exact eq_of_decode hv hw foundV foundW
  · intro w word
    exact ⟨decode_eq_clear_iff word, decode_eq_ret_iff word⟩
  · intro w ins word other found
    rcases decode_cases word found with ⟨-, family, -⟩ | ⟨-, family, -⟩ | encoded
    · exact absurd family other
    · exact absurd family other
    · exact encoded

/-- `D12F` and the number that is `2 ^ 40` less draw the same sprite, whose encoding is `D12F`
again.  The words `03E0` and `00E0` both clear the screen. -/
theorem decode_is_exact_draw :
    decode (0xd12f - 0x10000000000) = some (.draw 1 2 15) ∧ encode (.draw 1 2 15) = 0xd12f ∧
      decode 0x03e0 = decode 0x00e0 := by
  obtain ⟨exact, wraps, -, ignored, unique⟩ := decode_is_exact
  have word : decode (0xd12f : Nat) = some (.draw 1 2 15) := (exact (.draw 1 2 15)).2
  refine ⟨?_, unique 0xd12f _ (by decide) (by decide) word, ?_⟩
  · rw [wraps]
    exact word
  · have clears := (ignored 0x03e0 (by decide)).1.mpr ⟨rfl, rfl⟩
    exact clears.trans ((ignored 0x00e0 (by decide)).1.mpr ⟨rfl, rfl⟩).symm

end Chip8.Instruction
