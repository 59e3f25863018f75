/-
# Chip8.Proofs.MemoryRuns -- runs of bytes at whole addresses

Instructions go through memory in runs of neighbouring bytes, and a run may leave memory
in its middle.  At a whole address `start` both kinds of run have a closed form:

* `writeFrom_natCast`: writing is `overlay`, the bytes laid over memory as far as it
  reaches;
* `readFrom_natCast`: reading is `span`, the bytes that there are;
* either way the fault is `runFault?`: none if the run is empty or fits, and otherwise the
  first address outside memory, which is `start` itself or the end.

A run that starts anywhere else than at a whole address fails at once, or is empty
(`writeFrom_of_none`).
-/
import Mathlib.Data.List.GetD
import Chip8.Memory
import Chip8.Instruction.Decode

set_option autoImplicit false

namespace Chip8.Memory

/-! ## Single bytes -/

/-- The byte at a whole address, zero outside memory. -/
def byteAt (m : Memory) (a : Nat) : UInt8 := m.bytes.toList.getD a 0

/-- The word at a whole address, its high byte first. -/
def wordAt (m : Memory) (a : Nat) : Nat := Word.ofBytes (m.byteAt a) (m.byteAt (a + 1))

theorem byteAt_eq_get (m : Memory) {a : Nat} (inside : a < 4096) :
    m.byteAt a = m.get ⟨a, inside⟩ := by
  simp [byteAt, get, inside]

theorem ext_get {m n : Memory} (same : ∀ k, m.get k = n.get k) : m = n := by
  cases m with
  | mk bytes =>
    cases n with
    | mk bytes' =>
      congr 1
      apply Vector.ext
      intro a inside
      exact same ⟨a, inside⟩

theorem get_set (m : Memory) (k j : Fin 4096) (b : UInt8) :
    (m.set k b).get j = if j = k then b else m.get j := by
  have h : (m.set k b).get j = if k.val = j.val then b else m.get j :=
    Vector.getElem_set k.isLt j.isLt
  simp only [h, Fin.ext_iff, eq_comm]

theorem address?_of_le {a : Nat} (outside : 4096 ≤ a) : address? (a : Rat) = none := by
  rw [address?_natCast, dif_neg (by omega)]

theorem address?_of_lt {a : Nat} (inside : a < 4096) : address? (a : Rat) = some ⟨a, inside⟩ := by
  rw [address?_natCast, dif_pos inside]

theorem read_of_lt (m : Memory) {a : Nat} (inside : a < 4096) :
    m.read (a : Rat) = .ok (m.byteAt a) := by
  rw [read, address?_of_lt inside, byteAt_eq_get m inside]

theorem read_of_le (m : Memory) {a : Nat} (outside : 4096 ≤ a) :
    m.read (a : Rat) = .error (.memoryAccess (a : Rat)) := by
  rw [read, address?_of_le outside]

/-- A write changes the byte at its address and no other. -/
theorem get_of_write_eq_ok {m written : Memory} {a value : Rat}
    (ok : m.write a value = .ok written) (place : Fin 4096) :
    written.get place = if a = (place.val : Rat) then wrapByte value else m.get place := by
  rw [write] at ok
  cases found : address? a with
  | none =>
    rw [found] at ok
    cases ok
  | some k =>
    rw [found] at ok
    cases ok
    have here := address?_eq_some found
    have same : a = (place.val : Rat) ↔ place = k := by
      rw [here, Rat.natCast_inj, eq_comm, Fin.ext_iff]
    rw [get_set]
    simp only [same]

theorem next_address (a : Nat) : (a : Rat) + 1 = ((a + 1 : Nat) : Rat) :=
  (Rat.natCast_add a 1).symm

/-! ## Writing -/

/-- Memory with bytes laid over it from address `start` on, as far as it reaches. -/
def overlay (m : Memory) (start : Nat) (bytes : List UInt8) : Memory :=
  ⟨Vector.ofFn fun k : Fin 4096 =>
    if start ≤ k.val then bytes.getD (k.val - start) (m.get k) else m.get k⟩

/-- What stops a run of `count` bytes that starts at a whole address. -/
def runFault? (start count : Nat) : Option Fault :=
  if count = 0 ∨ start + count ≤ 4096 then none
  else some (.memoryAccess ((max start 4096 : Nat) : Rat))

theorem get_overlay (m : Memory) (start : Nat) (bytes : List UInt8) (k : Fin 4096) :
    (m.overlay start bytes).get k =
      if start ≤ k.val then bytes.getD (k.val - start) (m.get k) else m.get k := by
  simp [overlay, get]

theorem overlay_nil (m : Memory) (start : Nat) : m.overlay start [] = m := by
  apply ext_get
  intro k
  simp [get_overlay]

theorem overlay_outside (m : Memory) {start : Nat} (outside : 4096 ≤ start)
    (bytes : List UInt8) : m.overlay start bytes = m := by
  apply ext_get
  intro k
  rw [get_overlay, if_neg (by omega)]

theorem overlay_cons (m : Memory) {start : Nat} (inside : start < 4096) (b : UInt8)
    (rest : List UInt8) :
    m.overlay start (b :: rest) = (m.set ⟨start, inside⟩ b).overlay (start + 1) rest := by
  apply ext_get
  intro k
  rw [get_overlay, get_overlay, get_set]
  by_cases before : k.val < start
  · have ne : k ≠ ⟨start, inside⟩ := by
      intro same
      simp [same] at before
    rw [if_neg (by omega), if_neg (by omega), if_neg ne]
  · by_cases here : k = ⟨start, inside⟩
    · subst here
      rw [if_pos (Nat.le_refl _), if_neg (Nat.not_succ_le_self start), if_pos rfl, Nat.sub_self,
        List.getD_cons_zero]
    · have beyond : start + 1 ≤ k.val := by
        have := Fin.val_ne_of_ne here
        simp only at this
        omega
      have offset : k.val - start = k.val - (start + 1) + 1 := by omega
      rw [if_pos (by omega), if_pos beyond, if_neg here, offset, List.getD_cons_succ]

/-- A byte of a run is read from its place. -/
theorem byteAt_overlay (m : Memory) {start k : Nat} {bytes : List UInt8}
    (inside : k < bytes.length) (place : start + k < 4096) :
    (m.overlay start bytes).byteAt (start + k) = bytes[k] := by
  rw [byteAt_eq_get _ place, get_overlay, if_pos (Nat.le_add_right _ _), Nat.add_sub_cancel_left,
    List.getD_eq_getElem _ _ inside]

theorem runFault?_succ {start : Nat} (inside : start < 4096) (count : Nat) :
    runFault? start (count + 1) = runFault? (start + 1) count := by
  unfold runFault?
  by_cases fits : start + 1 + count ≤ 4096
  · rw [if_pos (by omega), if_pos (by omega)]
  · by_cases empty : count = 0
    · rw [if_pos (by omega), if_pos (by omega)]
    · rw [if_neg (by omega), if_neg (by omega), Nat.max_eq_right (by omega),
        Nat.max_eq_right (by omega)]

theorem runFault?_outside {start : Nat} (outside : 4096 ≤ start) (count : Nat) :
    runFault? start (count + 1) = some (.memoryAccess (start : Rat)) := by
  rw [runFault?, if_neg (by omega), Nat.max_eq_left outside]

/-- **Writing a run at a whole address lays its bytes over memory.** -/
theorem writeFrom_natCast (m : Memory) (start : Nat) (bytes : List UInt8) :
    m.writeFrom (start : Rat) bytes = (m.overlay start bytes, runFault? start bytes.length) := by
  induction bytes generalizing m start with
  | nil => simp [writeFrom, overlay_nil, runFault?]
  | cons b rest ih =>
    rw [writeFrom, List.length_cons]
    by_cases inside : start < 4096
    · rw [address?_of_lt inside]
      simp only [next_address]
      rw [ih, overlay_cons m inside, runFault?_succ inside]
    · have outside : 4096 ≤ start := by omega
      rw [address?_of_le outside, overlay_outside m outside, runFault?_outside outside]

/-- A run that does not start at an address writes nothing, and goes through only if it is
empty. -/
theorem writeFrom_of_none (m : Memory) {a : Rat} (nowhere : address? a = none)
    (bytes : List UInt8) :
    m.writeFrom a bytes = (m, if bytes = [] then none else some (.memoryAccess a)) := by
  cases bytes with
  | nil => rfl
  | cons b rest => simp [writeFrom, nowhere]

/-- A run of writing that goes through lies in memory, if there is anything to write. -/
theorem writeFrom_snd_none {m : Memory} {a : Rat} {bytes : List UInt8} (nonempty : bytes ≠ [])
    (through : (m.writeFrom a bytes).2 = none) :
    ∃ start : Nat, a = (start : Rat) ∧ start + bytes.length ≤ 4096 ∧
      (m.writeFrom a bytes).1 = m.overlay start bytes := by
  cases found : address? a with
  | none =>
    rw [writeFrom_of_none m found, if_neg nonempty] at through
    cases through
  | some first =>
    obtain rfl := address?_eq_some found
    rw [writeFrom_natCast] at through ⊢
    refine ⟨first.val, rfl, Nat.le_of_not_lt ?_, rfl⟩
    intro beyond
    have positive := List.length_pos_iff.mpr nonempty
    rw [runFault?, if_neg (by omega)] at through
    cases through

/-- A run of writing leaves the bytes outside it alone. -/
theorem get_writeFrom_of_outside (m : Memory) {start : Rat} {bytes : List UInt8} {k : Fin 4096}
    (outside : ¬ (start ≤ (k.val : Rat) ∧ (k.val : Rat) < start + (bytes.length : Rat))) :
    (m.writeFrom start bytes).1.get k = m.get k := by
  cases found : address? start with
  | none => rw [writeFrom_of_none m found]
  | some first =>
    obtain rfl := address?_eq_some found
    rw [← Rat.natCast_add, Rat.natCast_le_natCast, Rat.natCast_lt_natCast] at outside
    rw [writeFrom_natCast, get_overlay]
    by_cases before : k.val < first.val
    · rw [if_neg (by omega)]
    · rw [if_pos (by omega), List.getD_eq_default _ _ (by omega)]

/-! ## Reading -/

/-- The bytes from address `start` on, up to `count` of them or the end of memory. -/
def span (m : Memory) (start count : Nat) : List UInt8 := (m.bytes.toList.drop start).take count

theorem span_outside (m : Memory) {start : Nat} (outside : 4096 ≤ start) (count : Nat) :
    m.span start count = [] := by
  simp [span, outside]

theorem span_succ (m : Memory) {start : Nat} (inside : start < 4096) (count : Nat) :
    m.span start (count + 1) = m.get ⟨start, inside⟩ :: m.span (start + 1) count := by
  rw [span, List.drop_eq_getElem_cons (by simpa using inside), List.take_succ_cons]
  rfl

/-- The bytes of a run that lies in memory. -/
theorem span_eq_map (m : Memory) {start count : Nat} (inside : start + count ≤ 4096) :
    m.span start count = (List.range count).map fun k => m.byteAt (start + k) := by
  induction count generalizing start with
  | zero => rfl
  | succ count ih =>
    rw [span_succ m (by omega), ih (by omega), List.range_succ_eq_map, List.map_cons,
      List.map_map, ← byteAt_eq_get m (by omega)]
    congr 1
    apply List.map_congr_left
    intro k _
    show m.byteAt (start + 1 + k) = m.byteAt (start + (k + 1))
    rw [Nat.add_right_comm, Nat.add_assoc]

/-- A run that lies in memory is read as it was written. -/
theorem span_overlay (m : Memory) {start : Nat} {bytes : List UInt8}
    (inside : start + bytes.length ≤ 4096) :
    (m.overlay start bytes).span start bytes.length = bytes := by
  rw [span_eq_map _ inside]
  apply List.ext_getElem
  · simp
  · intro k listed listed'
    rw [List.getElem_map, List.getElem_range]
    exact byteAt_overlay m listed' (by omega)

/-- The bytes of a run one by one, with a byte in place of those that memory does not have. -/
theorem getD_span (m : Memory) (start count k : Nat) (b : UInt8) :
    (m.span start count).getD k b =
      if k < count ∧ start + k < 4096 then m.byteAt (start + k) else b := by
  rw [span, List.getD_eq_getElem?_getD, List.getElem?_take, List.getElem?_drop]
  by_cases taken : k < count
  · rw [if_pos taken, byteAt, List.getD_eq_getElem?_getD]
    by_cases inside : start + k < 4096
    · have listed : start + k < m.bytes.toList.length := by simpa using inside
      rw [if_pos ⟨taken, inside⟩, List.getElem?_eq_getElem listed, Option.getD_some,
        Option.getD_some]
    · have beyond : m.bytes.toList.length ≤ start + k := by simpa using inside
      rw [if_neg fun both => inside both.2, List.getElem?_eq_none beyond, Option.getD_none]
  · rw [if_neg taken, if_neg fun both => taken both.1, Option.getD_none]

theorem length_span_le (m : Memory) (start count : Nat) : (m.span start count).length ≤ count :=
  List.length_take_le ..

theorem length_readFrom_le (m : Memory) (a : Rat) (count : Nat) :
    (m.readFrom a count).1.length ≤ count := by
  induction count generalizing a with
  | zero => exact Nat.le_refl 0
  | succ count ih =>
    rw [readFrom]
    split
    · exact Nat.succ_le_succ (ih _)
    · exact Nat.zero_le _

/-- **Reading a run at a whole address gives the bytes that there are.** -/
theorem readFrom_natCast (m : Memory) (start count : Nat) :
    m.readFrom (start : Rat) count = (m.span start count, runFault? start count) := by
  induction count generalizing start with
  | zero => simp [readFrom, span, runFault?]
  | succ count ih =>
    rw [readFrom]
    by_cases inside : start < 4096
    · rw [address?_of_lt inside]
      simp only [next_address]
      rw [ih, span_succ m inside, runFault?_succ inside]
    · have outside : 4096 ≤ start := by omega
      rw [address?_of_le outside, span_outside m outside, runFault?_outside outside]

end Chip8.Memory
