/-
# Chip8.Proofs.ListingAgreement -- a listing says what the machine will do

A listing and the machine build words from the bytes of an image in two ways: the listing
takes the bytes in pairs, the machine writes them to memory one by one and fetches two of
them.  `getElem?_listing` says which pair of bytes an entry of a listing stands for, and
`Memory.byteAt_loadProgram` what is read from memory after an image has been loaded.  They are
the same bytes up to the last place of memory, so a machine that has come to an entry, whatever
else has happened to it, fetches the word of the entry and does what its text says
(`listing_agrees`).
-/
import Chip8.Proofs.AssemblyText
import Chip8.Proofs.Failure
import Chip8.Proofs.ProgramLoading

set_option autoImplicit false

namespace Chip8

/-! ## Entries of a listing -/

theorem Word.ofBytes_lt (high low : UInt8) : Word.ofBytes high low < 65536 := by
  have first := high.toNat_lt
  have second := low.toNat_lt
  rw [Word.ofBytes]
  omega

theorem Word.ofBytes_div (high low : UInt8) : Word.ofBytes high low / 256 = high.toNat := by
  have byte := low.toNat_lt
  rw [Word.ofBytes]
  omega

theorem Word.ofBytes_mod (high low : UInt8) : Word.ofBytes high low % 256 = low.toNat := by
  have byte := low.toNat_lt
  rw [Word.ofBytes]
  omega

/-- Every second byte starts an entry, except a last one without a partner. -/
theorem length_listingFrom (origin : Rat) :
    ∀ (offset : Nat) (image : List Rat), (listingFrom origin offset image).length = image.length / 2
  | _, [] => rfl
  | _, [_] => by simp [listingFrom]
  | offset, high :: low :: rest => by
    have behind := length_listingFrom origin (offset + 2) rest
    simp only [listingFrom, List.length_cons, behind]
    omega

theorem length_listing (image : List Rat) (origin : Rat) :
    (listing image origin).length = image.length / 2 :=
  length_listingFrom origin 0 image

/-- The entries behind an offset stand for the pairs of bytes that are left. -/
theorem getElem?_listingFrom (origin : Rat) :
    ∀ {image : List Rat} {k : Nat} (pair : 2 * k + 1 < image.length) (offset : Nat),
      (listingFrom origin offset image)[k]? =
        some ⟨Binary64.add origin ((offset + 2 * k : Nat) : Rat),
          Word.ofBytes (wrapByte image[2 * k]) (wrapByte image[2 * k + 1]),
          Word.text (Word.ofBytes (wrapByte image[2 * k]) (wrapByte image[2 * k + 1]))⟩
  | [], _, pair, _ => by simp at pair
  | [_], _, pair, _ => by simp at pair
  | _ :: _ :: _, 0, _, _ => rfl
  | high :: low :: rest, k + 1, pair, offset => by
    have behind : 2 * k + 1 < rest.length := by
      simp only [List.length_cons] at pair
      omega
    have place : offset + 2 + 2 * k = offset + 2 * (k + 1) := by omega
    rw [listingFrom, List.getElem?_cons_succ, getElem?_listingFrom origin behind, place]
    rfl

/-- **The `k`-th entry of a listing stands for the bytes `2 * k` and `2 * k + 1`.** -/
theorem getElem?_listing {image : List Rat} {k : Nat} (pair : 2 * k + 1 < image.length)
    (origin : Rat) :
    (listing image origin)[k]? =
      some ⟨Binary64.add origin ((2 * k : Nat) : Rat),
        Word.ofBytes (wrapByte image[2 * k]) (wrapByte image[2 * k + 1]),
        Word.text (Word.ofBytes (wrapByte image[2 * k]) (wrapByte image[2 * k + 1]))⟩ := by
  rw [listing, getElem?_listingFrom origin pair, Nat.zero_add]

/-- An entry of a listing stands for a pair of neighbouring bytes. -/
theorem mem_listing {origin : Rat} {image : List Rat} {entry : ListingEntry}
    (listed : entry ∈ listing image origin) :
    ∃ k, ∃ pair : 2 * k + 1 < image.length,
      entry.address = Binary64.add origin ((2 * k : Nat) : Rat) ∧
        entry.word = Word.ofBytes (wrapByte image[2 * k]) (wrapByte image[2 * k + 1]) ∧
        entry.text = Word.text entry.word := by
  obtain ⟨k, inside, rfl⟩ := List.getElem_of_mem listed
  have pair : 2 * k + 1 < image.length := by
    rw [length_listing] at inside
    omega
  have found := getElem?_listing pair origin
  rw [List.getElem?_eq_getElem inside, Option.some.injEq] at found
  rw [found]
  exact ⟨k, pair, rfl, rfl, rfl⟩

namespace Machine

variable {m : Machine} {now : Rat} {here word : Nat} {ins : Instruction}

/-! ## Steps at an entry -/

/-- A machine at an entry of a listing, with the bytes of the entry still in memory, fetches
its word. -/
theorem fetch_at_entry {image : List Rat} (fits : image.length ≤ 3584)
    {entry : ListingEntry} (listed : entry ∈ listing image programStart) (fresh : Memory)
    (atEntry : m.pc = entry.address)
    (high : m.memory.read entry.address = (fresh.loadProgram image).1.read entry.address)
    (low : m.memory.read (entry.address + 1) =
      (fresh.loadProgram image).1.read (entry.address + 1)) :
    ∃ p : Nat, entry.address = (p : Rat) ∧ m.fetch = .ok (p, entry.word) := by
  obtain ⟨k, pair, address, word, -⟩ := mem_listing listed
  have first : programStart + 2 * k < 4096 := by
    rw [programStart]
    omega
  have second : programStart + 2 * k + 1 < 4096 := by
    rw [programStart] at first ⊢
    omega
  have place : entry.address = ((programStart + 2 * k : Nat) : Rat) := by
    rw [address, Binary64.add_natCast]
    exact Nat.le_trans (Nat.le_of_lt first) (by decide)
  rw [place, Memory.read_of_lt _ first, Memory.read_of_lt _ first,
    Memory.byteAt_loadProgram fresh (by omega) (by omega)] at high
  rw [place, Memory.next_address, Memory.read_of_lt _ second, Memory.read_of_lt _ second,
    Nat.add_assoc, Memory.byteAt_loadProgram fresh pair (by omega)] at low
  refine ⟨programStart + 2 * k, place, fetch_eq_ok_iff.mpr ⟨atEntry.trans place, by omega, ?_⟩⟩
  rw [Memory.wordAt, Nat.add_assoc, Except.ok.inj high, Except.ok.inj low, word]

/-! ## Agreement -/

/-- **A listing says what the machine will do.**  An image that fits is loaded into a new
machine without a fault.  A machine that has come to an entry of its listing, and still has
the two bytes there that were loaded, fetches the word of the entry.  Either the word stands
for no instruction, is written as four digits in a data directive, and stops the machine; or
the text is that of the instruction which the step executes. -/
theorem listing_agrees {image : List Rat} (fits : image.length ≤ 3584) (start : Rat)
    (random : RandomStream) {entry : ListingEntry} (listed : entry ∈ listing image programStart)
    (atEntry : m.pc = entry.address)
    (high : m.memory.read entry.address =
      ((create start random).loadRom image).1.memory.read entry.address)
    (low : m.memory.read (entry.address + 1) =
      ((create start random).loadRom image).1.memory.read (entry.address + 1)) (now : Rat) :
    ((create start random).loadRom image).2 = none ∧
      ∃ p : Nat, entry.address = (p : Rat) ∧ m.fetch = .ok (p, entry.word) ∧
        ((Instruction.decode entry.word = none ∧
            entry.text.toList = "DW 0x".toList ++ Hexadecimal.capitals 4 entry.word ∧
            m.step now =
              ({ m with lastStepAt := now },
                .error (.invalidInstruction entry.address entry.word))) ∨
          ∃ ins, Instruction.decode entry.word = some ins ∧ entry.text = ins.text ∧
            m.step now =
              match ({ m with lastStepAt := now } : Machine).execute now p ins with
              | (left, .error fault) => (left, .error fault)
              | (left, .ok next) =>
                ({ left with pc := ((next % 65536 : Nat) : Rat) }, .ok ins)) := by
  obtain ⟨p, place, fetched⟩ := fetch_at_entry fits listed Memory.fresh atEntry high low
  obtain ⟨k, pair, -, word, text⟩ := mem_listing listed
  refine ⟨Memory.loadProgram_fault Memory.fresh fits, p, place, fetched, ?_⟩
  cases found : Instruction.decode entry.word with
  | none =>
    have small : entry.word < 65536 := word ▸ Word.ofBytes_lt _ _
    refine Or.inl ⟨rfl, ?_, atEntry ▸ step_of_none fetched found⟩
    rw [text, Word.text_of_none found, Assembly.data_text small]
    simp [Assembly.written]
  | some ins =>
    have same : entry.text = ins.text := text.trans (Word.text_of_some found)
    exact Or.inr ⟨ins, rfl, same, step_of_some fetched found⟩

/-- Numbers outside a byte: `6105` and `FFFF`. -/
def outOfRange : List Rat := [0x61, 0x105, -1, 0xfff]

/-- The second word is listed as data, and stops a machine that comes to it. -/
theorem listing_agrees_outOfRange :
    (⟨514, 0xffff, "DW 0xFFFF"⟩ : ListingEntry) ∈ listing outOfRange programStart ∧
      ({ ((create 0 (RandomStream.cycle [])).loadRom outOfRange).1 with pc := 514 }.step 3).2 =
        .error (.invalidInstruction 514 0xffff) := by
  have listed : (⟨514, 0xffff, "DW 0xFFFF"⟩ : ListingEntry) ∈ listing outOfRange programStart := by
    decide +kernel
  obtain ⟨-, p, -, -, ⟨-, -, stopped⟩ | ⟨ins, found, -⟩⟩ :=
    listing_agrees
      (m := { ((create 0 (RandomStream.cycle [])).loadRom outOfRange).1 with pc := 514 })
      (by decide) 0 (RandomStream.cycle []) listed rfl rfl rfl 3
  · exact ⟨listed, by rw [stopped]⟩
  · have unknown : Instruction.decode ((0xffff : Nat) : Int) = none := by decide
    rw [unknown] at found
    cases found

end Machine

end Chip8
