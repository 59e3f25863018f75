/-
# Chip8.Proofs.GlyphLoading -- the glyphs go where there are only zeros

The glyphs are loaded where all bytes of their region are zero, and are laid over it then
(`loadGlyphs_eq_ok_iff`).  No byte of them is zero (`get_overlay_glyphs_ne_zero`), so they cannot be
loaded again while one is left.

A `MemoryCall` is anything that may be done to a memory.  Programs start behind the region, so
loading one does not reach it, and loading the glyphs leaves no zero there.  A byte of the region
that was not zero before a call and is zero after it has been written by this call
(`written_of_cleared`), and between two loads of the glyphs each of their bytes has been
(`exists_write_of_cleared`).
-/
import Chip8.Proofs.ProgramLoading

set_option autoImplicit false

namespace Chip8

/-- What may be done to a memory. -/
inductive MemoryCall where
  | write (address value : Int)
  | loadProgram (image : List Int)
  | loadGlyphs

namespace Memory

/-- The memory after a call, whether or not that succeeds. -/
def afterCall (m : Memory) : MemoryCall → Memory
  | .write address value =>
    match m.write address value with
    | .ok written => written
    | .error _ => m
  | .loadProgram image => (m.loadProgram (image.map fun n : Int => (n : Rat))).1
  | .loadGlyphs =>
    match m.loadGlyphs with
    | .ok loaded => loaded
    | .error _ => m

/-- The memory after some calls. -/
def afterCalls (m : Memory) (calls : List MemoryCall) : Memory := calls.foldl afterCall m

/-! ## Loading -/

/-- No byte of the glyphs fails to find its place. -/
theorem writeFrom_glyphs (m : Memory) :
    m.writeFrom 0 Font.bytes = (m.overlay 0 Font.bytes, none) := by
  have zero : (0 : Rat) = ((0 : Nat) : Rat) := rfl
  rw [zero, writeFrom_natCast, runFault?, Font.length_bytes, if_pos (by decide)]

theorem glyphRegionClear_iff (m : Memory) :
    m.glyphRegionClear = true ↔ ∀ place : Fin 4096, place.val < Font.size → m.get place = 0 := by
  rw [glyphRegionClear, Array.all_eq_true]
  simp only [Array.size_extract, Array.getElem_extract, Vector.size_toArray, beq_iff_eq]
  constructor
  · intro clear place low
    have byte := clear place.val (by omega)
    simpa [get] using byte
  · intro clear k inside
    have low : k < Font.size := by omega
    have small : k < 4096 := by omega
    simpa [get] using clear ⟨k, small⟩ low

/-- **The glyphs are laid over a region of zeros.** -/
theorem loadGlyphs_eq_ok_iff {m loaded : Memory} :
    m.loadGlyphs = .ok loaded ↔
      (∀ place : Fin 4096, place.val < Font.size → m.get place = 0) ∧
        m.overlay 0 Font.bytes = loaded := by
  rw [loadGlyphs, writeFrom_glyphs, ← glyphRegionClear_iff]
  cases m.glyphRegionClear <;> simp

theorem loadGlyphs_isOk_iff (m : Memory) :
    m.loadGlyphs.isOk = true ↔ ∀ place : Fin 4096, place.val < Font.size → m.get place = 0 := by
  rw [loadGlyphs, ← glyphRegionClear_iff]
  cases m.glyphRegionClear <;> simp [Except.isOk, Except.toBool]

/-- The region then holds the glyphs. -/
theorem get_overlay_glyphs (m : Memory) {place : Fin 4096} (low : place.val < Font.size) :
    (m.overlay 0 Font.bytes).get place = Font.bytes.getD place.val 0 := by
  have listed : place.val < Font.bytes.length := by rwa [Font.length_bytes]
  rw [get_overlay, if_pos (Nat.zero_le _), Nat.sub_zero, List.getD_eq_getElem _ _ listed,
    List.getD_eq_getElem _ _ listed]

theorem span_overlay_glyphs (m : Memory) :
    (m.overlay 0 Font.bytes).span 0 Font.size = Font.bytes := by
  rw [← Font.length_bytes]
  exact m.span_overlay (by decide)

/-- Behind it nothing changes. -/
theorem get_overlay_glyphs_of_le (m : Memory) {place : Fin 4096} (behind : Font.size ≤ place.val) :
    (m.overlay 0 Font.bytes).get place = m.get place := by
  rw [get_overlay, if_pos (Nat.zero_le _),
    List.getD_eq_default _ _ (by rw [Font.length_bytes]; exact behind)]

theorem get_overlay_glyphs_ne_zero (m : Memory) {place : Fin 4096} (low : place.val < Font.size) :
    (m.overlay 0 Font.bytes).get place ≠ 0 := by
  have listed : place.val < Font.bytes.length := by rwa [Font.length_bytes]
  rw [get_overlay_glyphs m low, List.getD_eq_getElem _ _ listed]
  intro zero
  exact Font.zero_not_mem_bytes (zero ▸ List.getElem_mem listed)

/-! ## Clearing a byte -/

section Clearing

variable {m : Memory} {place : Fin 4096} (low : place.val < Font.size)

include low

/-- **A byte of the region is cleared only by a write.** -/
theorem written_of_cleared {call : MemoryCall} (before : m.get place ≠ 0)
    (after : (m.afterCall call).get place = 0) :
    ∃ value : Int, call = .write place.val value ∧ value % 256 = 0 := by
  cases call with
  | write address value =>
    rw [afterCall] at after
    split at after
    · rename_i written ok
      rw [get_of_write_eq_ok ok] at after
      split at after
      · rename_i here
        have same : address = (place.val : Int) := by exact_mod_cast here
        have zero := toNat_wrapByte_intCast value
        rw [after] at zero
        have residue : (value % 256).toNat = 0 := zero.symm
        exact ⟨value, by rw [same], by omega⟩
      · exact absurd after before
    · exact absurd after before
  | loadProgram image =>
    have below : place.val < programStart := by
      rw [Font.size] at low
      rw [programStart]
      omega
    rw [afterCall, get_loadProgram_of_outside m (Or.inl below)] at after
    exact absurd after before
  | loadGlyphs =>
    rw [afterCall] at after
    split at after
    · rename_i loaded ok
      obtain ⟨-, rfl⟩ := loadGlyphs_eq_ok_iff.mp ok
      exact absurd after (get_overlay_glyphs_ne_zero m low)
    · exact absurd after before

/-- So is it in a run of calls. -/
theorem exists_write_of_cleared {calls : List MemoryCall} (before : m.get place ≠ 0)
    (after : (m.afterCalls calls).get place = 0) :
    ∃ value : Int, .write place.val value ∈ calls ∧ value % 256 = 0 := by
  induction calls generalizing m with
  | nil => exact absurd after before
  | cons call rest ih =>
    by_cases cleared : (m.afterCall call).get place = 0
    · obtain ⟨value, rfl, residue⟩ := written_of_cleared low before cleared
      exact ⟨value, List.mem_cons_self, residue⟩
    · obtain ⟨value, later, residue⟩ := ih cleared after
      exact ⟨value, List.mem_cons_of_mem _ later, residue⟩

end Clearing

/-- **The glyphs load onto zeros and nowhere else.**  Take any history of a new memory.  The glyphs
can be loaded exactly if all bytes of their region are zero then.  If they can, every byte of them
finds its place, the region holds them, and no other byte changes; if not, no byte changes at all.
Where they can be loaded again later, each byte of the region has been written in between with a
value that is zero modulo 256. -/
theorem glyphs_load_onto_zeros (calls : List MemoryCall) :
    let m := empty.afterCalls calls
    (m.loadGlyphs.isOk = true ↔
      ∀ place : Fin 4096, place.val < Font.size → m.get place = 0) ∧
    (∀ loaded, m.loadGlyphs = .ok loaded →
      m.afterCall .loadGlyphs = loaded ∧ m.writeFrom 0 Font.bytes = (loaded, none) ∧
      loaded.span 0 Font.size = Font.bytes ∧
      ∀ place : Fin 4096, Font.size ≤ place.val → loaded.get place = m.get place) ∧
    (∀ error, m.loadGlyphs = .error error → m.afterCall .loadGlyphs = m) ∧
    ∀ between : List MemoryCall,
      let later := (m.afterCall .loadGlyphs).afterCalls between
      m.loadGlyphs.isOk = true → later.loadGlyphs.isOk = true →
        ∀ place : Fin 4096, place.val < Font.size →
          ∃ value : Int, .write place.val value ∈ between ∧ value % 256 = 0 := by
  intro m
  refine ⟨m.loadGlyphs_isOk_iff, ?_, ?_, ?_⟩
  · intro loaded ok
    obtain ⟨-, rfl⟩ := loadGlyphs_eq_ok_iff.mp ok
    exact ⟨by rw [afterCall, ok], m.writeFrom_glyphs, m.span_overlay_glyphs,
      fun _ behind => m.get_overlay_glyphs_of_le behind⟩
  · intro error refused
    rw [afterCall, refused]
  · intro between later first second place low
    have laid : m.afterCall .loadGlyphs = m.overlay 0 Font.bytes := by
      have ok : m.loadGlyphs = .ok (m.overlay 0 Font.bytes) :=
        loadGlyphs_eq_ok_iff.mpr ⟨m.loadGlyphs_isOk_iff.mp first, rfl⟩
      rw [afterCall, ok]
    have before : (m.afterCall .loadGlyphs).get place ≠ 0 := by
      rw [laid]
      exact m.get_overlay_glyphs_ne_zero low
    exact exists_write_of_cleared low before (later.loadGlyphs_isOk_iff.mp second place low)

/-- A memory whose glyphs load once a byte in their place has been cleared, and again once each of
their own has been. -/
theorem glyphs_load_onto_zeros_twice :
    let calls : List MemoryCall := [.write 5 7, .loadGlyphs, .write 5 256]
    let between : List MemoryCall :=
      .write (-1) 9 :: (List.range 80).map fun a : Nat => .write a (-512)
    let m := empty.afterCalls calls
    (∃ loaded, m.loadGlyphs = .ok loaded ∧ loaded.span 0 Font.size = Font.bytes) ∧
      ((m.afterCall .loadGlyphs).afterCalls between).loadGlyphs.isOk = true ∧
      ∃ value : Int, .write 79 value ∈ between ∧ value % 256 = 0 := by
  intro calls between m
  have first : m.loadGlyphs.isOk = true := by decide +kernel
  have second : ((m.afterCall .loadGlyphs).afterCalls between).loadGlyphs.isOk = true := by
    decide +kernel
  obtain ⟨-, loads, -, written⟩ := glyphs_load_onto_zeros calls
  refine ⟨?_, second, written between first second 79 (by decide)⟩
  cases ok : m.loadGlyphs with
  | ok loaded => exact ⟨loaded, rfl, (loads loaded ok).2.2.1⟩
  | error refused =>
    rw [ok] at first
    cases first

end Memory

end Chip8
