/-
# Chip8.Proofs.ProgramLoading -- what an image leaves in memory

Loading knows nothing of sizes.  It writes an image byte by byte from the start of programs on,
and stops at the end of memory: `loadProgram_eq` gives the bytes that are there then
(`byteAt_loadProgram`) and the fault.  Whoever checks an image before knows nothing of memory,
and counts its bytes (`Rom.validate_eq`).

The two agree.  There is room for 3584 bytes, so an image fits into memory exactly if it is not
too large to be accepted: `loading_agrees_with_validation`.
-/
import Chip8.Proofs.MemoryRuns
import Chip8.Rom

set_option autoImplicit false

namespace Chip8

/-- Which images are refused, and why. -/
theorem Rom.validate_eq {α : Type} (image : List α) :
    Rom.validate image =
      if image.length = 0 then .error .empty
      else if 3584 < image.length then .error (.tooLarge image.length)
      else .ok image := by
  cases image <;> rfl

namespace Memory

variable {image : List Rat} {k : Nat}

/-! ## Loading -/

/-- The fault of a run of bytes from the start of programs on. -/
theorem runFault?_programStart (count : Nat) :
    runFault? programStart count = if count ≤ 3584 then none else some (.memoryAccess 0x1000) := by
  rw [runFault?, programStart]
  by_cases fits : count ≤ 3584
  · rw [if_pos (by omega), if_pos fits]
  · rw [if_neg (by omega), if_neg fits]
    rfl

/-- **Loading lays an image over memory** from the start of programs on. -/
theorem loadProgram_eq (m : Memory) (image : List Rat) :
    m.loadProgram image =
      (m.overlay programStart (image.map wrapByte),
        if image.length ≤ 3584 then none else some (.memoryAccess 0x1000)) := by
  rw [loadProgram, writeFrom_natCast, List.length_map, runFault?_programStart]

/-- An image that fits is loaded without a fault. -/
theorem loadProgram_fault (m : Memory) (fits : image.length ≤ 3584) :
    (m.loadProgram image).2 = none := by
  rw [loadProgram_eq, if_pos fits]

/-- A byte of an image is read from its place, if there is such a place. -/
theorem byteAt_loadProgram (m : Memory) (inside : k < image.length) (room : k < 3584) :
    (m.loadProgram image).1.byteAt (programStart + k) = wrapByte image[k] := by
  have listed : k < (image.map wrapByte).length := by rwa [List.length_map]
  have place : programStart + k < 4096 := by
    rw [programStart]
    omega
  rw [loadProgram_eq, byteAt_overlay m listed place, List.getElem_map]

/-- Below the start of programs and behind an image memory stays as it is. -/
theorem get_loadProgram_of_outside (m : Memory) {place : Fin 4096}
    (outside : place.val < programStart ∨ programStart + image.length ≤ place.val) :
    (m.loadProgram image).1.get place = m.get place := by
  rw [loadProgram_eq, get_overlay]
  rcases outside with below | behind
  · rw [if_neg (by omega)]
  · rw [if_pos (by omega), List.getD_eq_default _ _ (by rw [List.length_map]; omega)]

/-! ## Agreement -/

/-- Memory that holds the bytes of an image, as far as there is room for them, and is otherwise
as it was before. -/
structure Holds (loaded before : Memory) (image : List Int) : Prop where
  byte : ∀ k (inside : k < image.length), k < 3584 →
    ((loaded.byteAt (programStart + k)).toNat : Int) = image[k] % 256
  outside : ∀ place : Fin 4096,
    place.val < programStart ∨ programStart + image.length ≤ place.val →
      loaded.get place = before.get place

theorem holds_loadProgram (m : Memory) (image : List Int) :
    (m.loadProgram (image.map fun n : Int => (n : Rat))).1.Holds m image where
  byte k inside room := by
    have listed : k < (image.map fun n : Int => (n : Rat)).length := by rwa [List.length_map]
    rw [byteAt_loadProgram m listed room, List.getElem_map, toNat_wrapByte_intCast]
    omega
  outside place apart := by
    apply get_loadProgram_of_outside
    rwa [List.length_map]

/-- **Loading and validation agree.**  Whatever memory held before, it then holds the bytes of
the image modulo 256, as far as there is room, and is unchanged elsewhere.  Loading succeeds
exactly for the images of at most 3584 bytes; the fault of any other is that of the first address
behind memory, and memory is full up to there.  An image that is accepted is loaded to its last
byte, and one that is not empty is refused exactly if loading it fails. -/
theorem loading_agrees_with_validation (m : Memory) (image : List Int) :
    let loaded := m.loadProgram (image.map fun n : Int => (n : Rat))
    loaded.1.Holds m image ∧
      (loaded.2 = none ↔ image.length ≤ 3584) ∧
      (loaded.2 = some (.memoryAccess 0x1000) ↔ 3584 < image.length) ∧
      (∀ accepted, Rom.validate image = .ok accepted →
        accepted = image ∧ loaded.2 = none ∧ 0 < image.length ∧
          programStart + (image.length - 1) ≤ 0xfff) ∧
      (image ≠ [] →
        ((∃ error, Rom.validate image = .error error) ↔ ∃ fault, loaded.2 = some fault)) := by
  intro loaded
  have fault : loaded.2 = if image.length ≤ 3584 then none else some (.memoryAccess 0x1000) := by
    rw [show loaded = _ from loadProgram_eq m _, List.length_map]
  have nonempty : image ≠ [] → image.length ≠ 0 := fun ne => by simpa using ne
  rw [fault, Rom.validate_eq, programStart]
  refine ⟨m.holds_loadProgram image, ?_⟩
  by_cases fits : image.length ≤ 3584
  · have small : ¬ 3584 < image.length := Nat.not_lt_of_le fits
    rw [if_pos fits, if_neg small]
    refine ⟨by simp [fits], by simp [small], ?_, ?_⟩
    · intro accepted valid
      by_cases empty : image.length = 0
      · rw [if_pos empty] at valid
        cases valid
      · rw [if_neg empty] at valid
        cases valid
        exact ⟨rfl, rfl, by omega, by omega⟩
    · intro ne
      rw [if_neg (nonempty ne)]
      simp
  · have large : 3584 < image.length := Nat.lt_of_not_le fits
    rw [if_neg fits, if_pos large]
    refine ⟨by simp [fits], by simp [large], ?_, ?_⟩
    · intro accepted valid
      split at valid <;> cases valid
    · intro ne
      rw [if_neg (nonempty ne)]
      simp

/-- One byte too many: 3584 bytes are stored, the fault names the end of memory, and the image
would have been refused. -/
theorem loading_agrees_with_validation_oneTooMany :
    (fresh.loadProgram ((List.replicate 3585 (-1)).map fun n : Int => (n : Rat))).2 =
        some (.memoryAccess 0x1000) ∧
      (fresh.loadProgram ((List.replicate 3585 (-1)).map fun n : Int => (n : Rat))).1.byteAt 0xfff =
        0xff ∧
      ∃ error, Rom.validate (List.replicate 3585 (-1 : Int)) = .error error := by
  obtain ⟨holds, -, fails, -, refused⟩ :=
    loading_agrees_with_validation fresh (List.replicate 3585 (-1))
  have size : (List.replicate 3585 (-1 : Int)).length = 3585 := List.length_replicate
  have fault := fails.mpr (by rw [size]; decide)
  have last := holds.byte 3583 (by rw [size]; decide) (by decide)
  have value : (-1 : Int) % 256 = ((0xff : UInt8).toNat : Int) := by decide
  rw [List.getElem_replicate, value] at last
  refine ⟨fault, UInt8.toNat_inj.mp (Int.natCast_inj.mp last), (refused ?_).mpr ⟨_, fault⟩⟩
  exact List.ne_nil_of_length_pos (by rw [size]; decide)

end Memory

end Chip8
