/-
# Chip8.Proofs.ListingColumns -- a listing gives its image back

A line of a printed listing has three columns: the address in three digits, the word in four,
and the text of the word (`columns`).  Up to the end of memory an address has room in its
column, so the word always stands at the same place of the line, where `shownBytes?` reads it:
the two bytes of the word are the bytes that the entry stands for (`shownBytes?_columns`).

The entries of a listing stand for neighbouring bytes without a gap (`getElem?_listing`), so all
lines together give back the image (`shownImage?_lines`), except for a last byte that has no
partner.
-/
import Chip8.Command.Listing
import Chip8.Proofs.ListingAgreement
import Chip8.Proofs.Rounding

set_option autoImplicit false

namespace Chip8.Command.Listing

open Hexadecimal

/-! ## Lines -/

/-- A line of three columns: three digits of an address, four of a word, and the text. -/
def columns (address word : Nat) (text : String) : String :=
  String.ofList (spelled Nat.digitChar 3 address) ++ ": " ++
    String.ofList (spelled Nat.digitChar 4 word) ++ "  " ++ text

/-- The two bytes in the word column of a line. -/
def shownBytes? (line : Line) : Option (List UInt8) :=
  (Numeral.digits? 16 ((line.text.toList.drop 5).take 4) 0).map fun word =>
    [UInt8.ofNat (word / 256), UInt8.ofNat (word % 256)]

/-- The bytes in the word columns of all lines, in their order. -/
def shownImage? : List Line → Option (List UInt8)
  | [] => some []
  | line :: behind =>
    (shownBytes? line).bind fun bytes => (shownImage? behind).map (bytes ++ ·)

theorem lineText_eq_columns {address word : Nat} (room : address < 4096) (small : word < 65536)
    (text : String) : lineText ⟨(address : Rat), word, text⟩ = columns address word text := by
  rw [lineText, padded_word room (Nat.lt_trans room (by decide)), padded_word small small, columns]

/-- **The word column of a line reads back as the two bytes of the word.** -/
theorem shownBytes?_columns (stream : Stream) (address : Nat) (high low : UInt8) (text : String) :
    shownBytes? ⟨stream, columns address (Word.ofBytes high low) text⟩ = some [high, low] := by
  have column : ((columns address (Word.ofBytes high low) text).toList.drop 5).take 4 =
      spelled Nat.digitChar 4 (Word.ofBytes high low) := by
    have before := length_spelled Nat.digitChar 3 address
    have word := length_spelled Nat.digitChar 4 (Word.ofBytes high low)
    simp [columns, List.drop_append, before, word, List.drop_of_length_le]
  rw [shownBytes?, column, digits?_spelled digitValue?_digitChar (Word.ofBytes_lt high low)]
  simp [Word.ofBytes_div, Word.ofBytes_mod]

/-! ## The lines of an image -/

/-- The line of an entry that stands behind `offset` bytes of an image that fits. -/
theorem lineText_entry {offset : Nat} (room : offset + 1 < 3584) (high low : UInt8) :
    lineText ⟨Binary64.add programStart (offset : Rat), Word.ofBytes high low,
        Word.text (Word.ofBytes high low)⟩ =
      columns (0x200 + offset) (Word.ofBytes high low) (Word.text (Word.ofBytes high low)) := by
  have exact : programStart + offset ≤ Binary64.exactLimit :=
    Nat.le_trans (Nat.add_le_add_left (by omega : offset ≤ 3584) programStart) (by decide)
  rw [Binary64.add_natCast exact]
  exact lineText_eq_columns (by rw [programStart]; omega) (Word.ofBytes_lt high low) _

theorem length_lines (image : List UInt8) : (lines image).length = image.length / 2 := by
  simp [lines, length_listing]

theorem getElem?_lines {image : List UInt8} (fits : image.length ≤ 3584) {k : Nat}
    (pair : 2 * k + 1 < image.length) :
    (lines image)[k]? =
      some ⟨.out, columns (0x200 + 2 * k) (Word.ofBytes image[2 * k] image[2 * k + 1])
        (Word.text (Word.ofBytes image[2 * k] image[2 * k + 1]))⟩ := by
  have listed : 2 * k + 1 < (image.map byteValue).length := by
    rwa [List.length_map]
  rw [lines, List.getElem?_map, getElem?_listing listed, Option.map_some]
  simp only [List.getElem_map, wrapByte_byteValue]
  rw [lineText_entry (by omega)]

/-- The lines behind an offset show the bytes behind it. -/
theorem shownImage?_listingFrom :
    ∀ (offset : Nat) (image : List UInt8), offset + image.length ≤ 3584 →
      shownImage? ((listingFrom programStart offset (image.map byteValue)).map
          fun entry => ⟨.out, lineText entry⟩) =
        some (image.take (image.length - image.length % 2))
  | _, [], _ => rfl
  | _, [_], _ => by simp [listingFrom, shownImage?]
  | offset, high :: low :: behind, fits => by
    have rest := shownImage?_listingFrom (offset + 2) behind (by
      simp only [List.length_cons] at fits
      omega)
    have room : offset + 1 < 3584 := by
      simp only [List.length_cons] at fits
      omega
    have taken : behind.length + 1 + 1 - (behind.length + 1 + 1) % 2 =
        behind.length - behind.length % 2 + 1 + 1 := by
      omega
    simp only [List.map_cons, listingFrom, wrapByte_byteValue, lineText_entry room, shownImage?,
      shownBytes?_columns, rest, List.length_cons, taken, List.take_succ_cons]
    rfl

/-- **All lines together show the image, except for a last byte without a partner.** -/
theorem shownImage?_lines {image : List UInt8} (fits : image.length ≤ 3584) :
    shownImage? (lines image) = some (image.take (image.length - image.length % 2)) :=
  shownImage?_listingFrom 0 image (by omega)

theorem run_of_image {arguments : List String} {environment : Environment} {files : Files}
    {path : String} {image : List UInt8}
    (named : romPath? (Arguments.ofList arguments) environment = some path)
    (stored : files.read path = .ok image) (filled : 1 ≤ image.length)
    (fits : image.length ≤ 3584) :
    run arguments environment files = .plain 0 (lines image) := by
  have valid : Rom.validate image = .ok image := by
    rw [Rom.validate_eq, if_neg (by omega), if_neg (by omega)]
  simp only [run, named, ofImage, stored, valid]

/-- **A listing can be read back.**  The command lists every image file of one byte up to the
room for programs: it ends with success, prints one line for each pair of bytes, with address,
word and text in their columns, and the word columns give back the bytes of the image, except
for the last one of an odd number.

In general, for whatever whole numbers and whatever origin, a listing has an entry for each
pair; its address is the double-precision sum of the origin and the offset, which is the exact
sum wherever that is a double-precision number; and the two bytes of its word are the pair
modulo 256. -/
theorem listing_reads_back :
    (∀ (arguments : List String) (environment : Environment) (files : Files) (path : String)
      (image : List UInt8), romPath? (Arguments.ofList arguments) environment = some path →
      files.read path = .ok image → 1 ≤ image.length → image.length ≤ 3584 →
        (run arguments environment files).code = 0 ∧
          (run arguments environment files).lines.length = image.length / 2 ∧
          (∀ (i : Nat) (pair : 2 * i + 1 < image.length),
            ∃ word, word = 256 * image[2 * i].toNat + image[2 * i + 1].toNat ∧
              (run arguments environment files).lines[i]? =
                some ⟨.out, String.ofList (spelled Nat.digitChar 3 (0x200 + 2 * i)) ++ ": " ++
                  String.ofList (spelled Nat.digitChar 4 word) ++ "  " ++ Word.text word⟩) ∧
          shownImage? (run arguments environment files).lines =
            some (image.take (image.length - image.length % 2))) ∧
    ∀ (values : List Int) (origin : Rat),
      (listing (values.map Int.cast) origin).length = values.length / 2 ∧
        ∀ (i : Nat) (pair : 2 * i + 1 < values.length), ∃ entry,
          (listing (values.map Int.cast) origin)[i]? = some entry ∧
            entry.address = Binary64.add origin ((2 * i : Nat) : Rat) ∧
            (Binary64.OnGrid (origin + ((2 * i : Nat) : Rat)) →
              (∀ q ∈ [origin, ((2 * i : Nat) : Rat), origin + ((2 * i : Nat) : Rat)],
                Binary64.beyondRange q = false) →
              entry.address = origin + ((2 * i : Nat) : Rat)) ∧
            entry.word < 65536 ∧ ((entry.word / 256 : Nat) : Int) = values[2 * i] % 256 ∧
            ((entry.word % 256 : Nat) : Int) = values[2 * i + 1] % 256 ∧
            entry.text = Word.text entry.word := by
  refine ⟨?_, fun values origin => ⟨by simp [length_listing], fun i pair => ?_⟩⟩
  · intro arguments environment files path image named stored filled fits
    rw [run_of_image named stored filled fits]
    refine ⟨rfl, length_lines image, fun i pair => ?_, shownImage?_lines fits⟩
    refine ⟨Word.ofBytes image[2 * i] image[2 * i + 1], ?_, getElem?_lines fits pair⟩
    rw [Word.ofBytes, Nat.mul_comm]
  · have listed : 2 * i + 1 < (values.map (Int.cast : Int → Rat)).length := by
      rwa [List.length_map]
    refine ⟨_, getElem?_listing listed origin, rfl, ?_, Word.ofBytes_lt _ _, ?_, ?_, rfl⟩
    · intro grid finite
      exact grid.add_eq (finite _ (by simp)) (finite _ (by simp)) (finite _ (by simp))
    · rw [Word.ofBytes_div, List.getElem_map, toNat_wrapByte_intCast]
      omega
    · rw [Word.ofBytes_mod, List.getElem_map, toNat_wrapByte_intCast]
      omega

/-- Two instructions and a byte without a partner. -/
def twoAndAHalf : List UInt8 := [0x12, 0x00, 0x00, 0xee, 0x7f]

/-- Files of which one holds an image. -/
def oneImage : Files where
  read path := if path = "game.ch8" then .ok twoAndAHalf else .error (.notFound path)
  writeError? _ := none

/-- The listing of two instructions and a half, read back, and an entry in front of zero. -/
theorem listing_reads_back_twoAndAHalf :
    romPath? (Arguments.ofList ["--rom=game.ch8"]) (fun _ => none) = some "game.ch8" ∧
      oneImage.read "game.ch8" = .ok twoAndAHalf ∧
      1 ≤ twoAndAHalf.length ∧ twoAndAHalf.length ≤ 3584 ∧
      (run ["--rom=game.ch8"] (fun _ => none) oneImage).code = 0 ∧
      (run ["--rom=game.ch8"] (fun _ => none) oneImage).lines.length = 2 ∧
      (run ["--rom=game.ch8"] (fun _ => none) oneImage).lines[0]? =
        some ⟨.out, "200: 1200  JP 0x200"⟩ ∧
      (run ["--rom=game.ch8"] (fun _ => none) oneImage).lines[1]? =
        some ⟨.out, "202: 00ee  RET"⟩ ∧
      shownImage? (run ["--rom=game.ch8"] (fun _ => none) oneImage).lines =
        some [0x12, 0x00, 0x00, 0xee] ∧
      ∃ entry : ListingEntry,
        (listing (([0x61, 0x105, -1, 0xfff] : List Int).map Int.cast) (-7))[1]? = some entry ∧
          entry.address = -5 ∧ entry.word = 0xffff := by
  have named : romPath? (Arguments.ofList ["--rom=game.ch8"]) (fun _ => none) =
      some "game.ch8" := by
    decide +kernel
  obtain ⟨listed, entries⟩ := listing_reads_back
  obtain ⟨code, count, shown, read⟩ :=
    listed ["--rom=game.ch8"] (fun _ => none) oneImage "game.ch8" twoAndAHalf named rfl
      (by decide) (by decide)
  obtain ⟨_, rfl, first⟩ := shown 0 (by decide)
  obtain ⟨_, rfl, second⟩ := shown 1 (by decide)
  obtain ⟨-, pairs⟩ := entries [0x61, 0x105, -1, 0xfff] (-7)
  obtain ⟨entry, found, place, -, -, high, low, -⟩ := pairs 1 (by decide)
  refine ⟨named, rfl, by decide, by decide, code, count, ?_, ?_, read, entry, found, ?_, ?_⟩
  · rw [first]
    decide +kernel
  · rw [second]
    decide +kernel
  · rw [place]
    decide +kernel
  · simp at high low
    omega

end Chip8.Command.Listing
