/-
# Chip8.Proofs.MemoryHistory -- who writes to memory

Memory changes in three ways: an instruction stores bytes from the index on, an image is loaded,
or whoever holds the machine writes a byte.  An `Event` is any of the things that may happen to a
machine, and `Touches` says to which places it writes.  Every other place keeps its byte, whether
the event succeeds or not (`meet_memory`), so a stretch of memory that a run of events spares
holds in the end what it held at the start (`Spares.byteAt`).
-/
import Chip8.Proofs.History
import Chip8.Proofs.ProgramLoading

set_option autoImplicit false

namespace Chip8

/-- Something that happens to a machine. -/
inductive Event where
  | operation (op : Operation) (now : Rat)
  /-- A byte is written to memory from outside. -/
  | write (address value : Rat)
  /-- Everything but memory is changed from outside. -/
  | edit (change : Machine → Machine)

namespace Machine

/-- The machine after an event, whether or not that succeeds. -/
def meet (m : Machine) : Event → Machine
  | .operation op now => m.perform now op
  | .write address value =>
    match m.memory.write address value with
    | .ok memory => { m with memory }
    | .error _ => m
  | .edit change => { change m with memory := m.memory }

/-- The machine after a run of events. -/
def meetAll (m : Machine) (events : List Event) : Machine := events.foldl meet m

/-- Whether an event writes to a place in memory. -/
def Touches (m : Machine) (place : Fin 4096) : Event → Prop
  | .operation .step _ => ∃ ins, m.Upcoming ins ∧ ∃ i : Nat, m.i = (i : Rat) ∧ i ≤ place.val ∧
      place.val < i + ins.bytesStored
  | .operation (.loadRom image) _ =>
    programStart ≤ place.val ∧ place.val < programStart + image.length
  | .write address _ => address = (place.val : Rat)
  | _ => False

/-- Whether no event of a run writes to one of the `count` bytes from `start` on. -/
def Spares (m : Machine) (start count : Nat) : List Event → Prop
  | [] => True
  | event :: rest =>
    (∀ place : Fin 4096, start ≤ place.val → place.val < start + count →
        ¬ m.Touches place event) ∧
      (m.meet event).Spares start count rest

variable {m : Machine} {now : Rat} {place : Fin 4096}

/-! ## One event -/

/-- An instruction with its index nowhere in memory stores nothing. -/
theorem execute_memory_of_none (nowhere : Memory.address? m.i = none) (here : Nat)
    (ins : Instruction) : (m.execute now here ins).1.memory = m.memory := by
  cases ins with
  | storeDecimal x | store x =>
    simp only [execute, unlessFault_fst, Memory.writeFrom_of_none _ nowhere]
  | _ => simp only [execute, unlessFault_fst] <;> (try split) <;> rfl

/-- An instruction stores its bytes from a whole index on, and nowhere else. -/
theorem execute_memory_of_untouched {ins : Instruction}
    (untouched : ¬ ∃ i : Nat, m.i = (i : Rat) ∧ i ≤ place.val ∧ place.val < i + ins.bytesStored)
    (here : Nat) : (m.execute now here ins).1.memory.get place = m.memory.get place := by
  cases found : Memory.address? m.i with
  | none => rw [execute_memory_of_none found]
  | some first =>
    have atIndex := Memory.address?_eq_some found
    apply execute_memory
    rintro ⟨low, high⟩
    rw [atIndex] at low high
    exact untouched ⟨first.val, atIndex, by exact_mod_cast low, by exact_mod_cast high⟩

theorem step_fst_memory (untouched : ¬ m.Touches place (.operation .step now)) :
    (m.step now).1.memory.get place = m.memory.get place := by
  rcases step_fst_cases m now with left | ⟨here, ins, pc, next, left⟩
  · rw [left]
  · rw [left]
    apply execute_memory_of_untouched (m := { m with lastStepAt := now })
    rintro ⟨i, touched⟩
    exact untouched ⟨ins, next, i, touched⟩

theorem write_memory {address value : Rat} (elsewhere : address ≠ (place.val : Rat)) :
    (m.meet (.write address value)).memory.get place = m.memory.get place := by
  rw [meet]
  split
  · rename_i written ok
    rw [Memory.get_of_write_eq_ok ok, if_neg elsewhere]
  · rfl

/-- **A place that an event does not write to keeps its byte.** -/
theorem meet_memory {event : Event} (untouched : ¬ m.Touches place event) :
    (m.meet event).memory.get place = m.memory.get place := by
  cases event with
  | operation op now =>
    cases op with
    | step => exact step_fst_memory untouched
    | loadRom image =>
      apply Memory.get_loadProgram_of_outside
      have outside : ¬ (programStart ≤ place.val ∧ place.val < programStart + image.length) :=
        untouched
      omega
    | release =>
      simp only [meet, perform, release]
      cases m.latch.release now <;> rfl
    | press key | setTimer value | flush => rfl
  | write address value => exact write_memory untouched
  | edit change => rfl

/-! ## Runs of events -/

/-- **What a run of events spares stays in memory.** -/
theorem Spares.byteAt {start count a : Nat} {events : List Event}
    (spares : m.Spares start count events) (low : start ≤ a) (high : a < start + count)
    (inside : a < 4096) : (m.meetAll events).memory.byteAt a = m.memory.byteAt a := by
  induction events generalizing m with
  | nil => rfl
  | cons event rest ih =>
    obtain ⟨untouched, later⟩ := spares
    have kept := meet_memory (untouched ⟨a, inside⟩ low high)
    calc (m.meetAll (event :: rest)).memory.byteAt a
        = (m.meet event).memory.byteAt a := ih later
      _ = m.memory.byteAt a := by
        rw [Memory.byteAt_eq_get _ inside, Memory.byteAt_eq_get _ inside, kept]

end Machine

end Chip8
