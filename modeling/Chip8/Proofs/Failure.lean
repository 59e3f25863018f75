/-
# Chip8.Proofs.Failure -- when a step fails, and what it leaves

A step fails for one of four reasons, and `Fails` lists them with the machine that each
leaves: there is no whole word at the program counter; the word stands for no instruction;
it is a return and the stack is empty; or the instruction needs more bytes from the index on
than memory has.

The first three leave everything but the time of the attempt alone.  The last leaves the
part of the instruction for which there was memory (`cutShort`): the bytes stored, the
registers loaded or the rows drawn before the end of memory, and nothing else, so the flag
of a sprite is not written.
-/
import Chip8.Proofs.Stepping

set_option autoImplicit false

namespace Chip8

theorem Memory.runFault?_eq_some_iff {start count : Nat} {fault : Fault} :
    runFault? start count = some fault ↔
      0 < count ∧ 0x1000 < start + count ∧
        fault = .memoryAccess ((max start 0x1000 : Nat) : Rat) := by
  unfold runFault?
  split
  · rename_i fits
    constructor
    · intro impossible
      cases impossible
    · rintro ⟨positive, beyond, -⟩
      omega
  · rename_i runsOut
    rw [not_or] at runsOut
    constructor
    · intro same
      cases same
      exact ⟨by omega, by omega, rfl⟩
    · rintro ⟨-, -, rfl⟩
      rfl

namespace Machine

variable {m left : Machine} {now : Rat} {here p i : Nat} {ins : Instruction} {fault : Fault}

/-! ## Instructions cut short -/

/-- The machine after the part of an instruction for which memory, from index `i` on, has
the bytes. -/
def cutShort (m : Machine) (i : Nat) : Instruction → Machine
  | .storeDecimal x => { m with memory := m.memory.overlay i (decimalDigits (m.reg x)) }
  | .store x => { m with memory := m.memory.overlay i (m.v.toList.take (x.val + 1)) }
  | .load x =>
    { m with
      v := Vector.ofFn fun r =>
        if r.val ≤ x.val ∧ i + r.val < 0x1000 then m.memory.byteAt (i + r.val) else m.reg r }
  | .draw x y rows =>
    m.setGrid <|
      m.screen.cells.toggled (m.memory.span i rows.val) (m.reg x).toNat (m.reg y).toNat
  | _ => m

/-- The registers loaded are those for which memory has a byte. -/
theorem overwrite_span (m : Machine) (i : Nat) (x : Register) :
    m.v.overwrite 0 (m.memory.span i (x.val + 1)) =
      Vector.ofFn fun r : Register =>
        if r.val ≤ x.val ∧ i + r.val < 0x1000 then m.memory.byteAt (i + r.val) else m.reg r := by
  apply Vector.ext
  intro k inside
  have loaded : (m.v.overwrite 0 (m.memory.span i (x.val + 1)))[k] = _ :=
    m.v.get_overwrite (m.memory.span i (x.val + 1)) ⟨k, inside⟩
  rw [loaded, Memory.getD_span, Vector.getElem_ofFn]
  simp only [Nat.lt_succ_iff]
  rfl

/-- The corner of a sprite is two bytes, so it is far inside the exact range, and there are at
most fifteen rows. -/
theorem sprite_bounds (m : Machine) (x y : Register) (i : Nat) (rows : Fin 16) :
    (m.reg x).toNat + 7 ≤ Binary64.exactLimit ∧
      (m.reg y).toNat + (m.memory.span i rows.val).length ≤ Binary64.rangeEnd ∧
      (m.memory.span i rows.val).length ≤ 32 := by
  have column := (m.reg x).toNat_lt
  have row := (m.reg y).toNat_lt
  have few := Memory.length_span_le m.memory i rows.val
  have fifteen := rows.isLt
  have inside := Binary64.exactLimit_lt_rangeEnd
  rw [Binary64.exactLimit] at inside ⊢
  refine ⟨?_, ?_, ?_⟩ <;> omega

/-- The rows drawn are the cells toggled. -/
theorem drawRows_span (m : Machine) (x y : Register) (rows : Fin 16) (erased : Bool) :
    (Grid.drawRows (byteValue (m.reg x)) (m.reg y).toNat (m.screen.cells, erased)
        (m.memory.span i rows.val)).1 =
      m.screen.cells.toggled (m.memory.span i rows.val) (m.reg x).toNat (m.reg y).toNat := by
  obtain ⟨column, row, few⟩ := m.sprite_bounds x y i rows
  exact Grid.drawRows_natCast column row few _ _

/-- An instruction that runs out of memory is cut short. -/
theorem execute_runsOut (atIndex : m.i = (i : Rat))
    (runsOut : Memory.runFault? i ins.bytesNeeded = some fault) :
    m.execute now here ins = (m.cutShort i ins, .error fault) := by
  cases ins with
  | storeDecimal x =>
    have stops : Memory.runFault? i 3 = some fault := runsOut
    have stored : m.memory.writeFrom m.i (decimalDigits (m.reg x)) =
        (m.memory.overlay i (decimalDigits (m.reg x)), some fault) := by
      rw [atIndex, Memory.writeFrom_natCast, ← stops]
      rfl
    simp only [execute, stored]
    rfl
  | store x =>
    have stops : Memory.runFault? i (x.val + 1) = some fault := runsOut
    have stored : m.memory.writeFrom m.i (m.v.toList.take (x.val + 1)) =
        (m.memory.overlay i (m.v.toList.take (x.val + 1)), some fault) := by
      rw [atIndex, Memory.writeFrom_natCast, length_take_registers, stops]
    simp only [execute, stored]
    rfl
  | load x =>
    have stops : Memory.runFault? i (x.val + 1) = some fault := runsOut
    have loaded : m.memory.readFrom m.i (x.val + 1) =
        (m.memory.span i (x.val + 1), some fault) := by
      rw [atIndex, Memory.readFrom_natCast, stops]
    simp only [execute, loaded, overwrite_span]
    rfl
  | draw x y rows =>
    have stops : Memory.runFault? i rows.val = some fault := runsOut
    have sprite : m.memory.readFrom m.i rows.val = (m.memory.span i rows.val, some fault) := by
      rw [atIndex, Memory.readFrom_natCast, stops]
    simp only [execute, sprite]
    rw [drawRows_span]
    rfl
  | _ => simp [Instruction.bytesNeeded, Memory.runFault?] at runsOut

/-- **How an instruction fails.** -/
theorem execute_eq_error_iff (atIndex : m.i = (i : Rat)) :
    m.execute now here ins = (left, .error fault) ↔
      (ins = .ret ∧ m.stack = [] ∧ left = m ∧ fault = .stackUnderflow m.pc) ∨
        (Memory.runFault? i ins.bytesNeeded = some fault ∧ left = m.cutShort i ins) := by
  constructor
  · intro done
    rcases (execute_error_iff atIndex).mp (congrArg Prod.snd done) with
      ⟨rfl, empty, rfl⟩ | runsOut
    · simp only [execute, empty] at done
      cases done
      exact Or.inl ⟨rfl, empty, rfl, rfl⟩
    · rw [execute_runsOut atIndex runsOut] at done
      cases done
      exact Or.inr ⟨runsOut, rfl⟩
  · rintro (⟨rfl, empty, rfl, rfl⟩ | ⟨runsOut, rfl⟩)
    · simp only [execute, empty]
    · exact execute_runsOut atIndex runsOut

/-! ## Steps -/

/-- How a step of a machine fails that has its program counter at `p` and its index at `i`:
the machine left and the fault. -/
inductive Fails (m : Machine) (now : Rat) (p i : Nat) : Machine → Fault → Prop where
  /-- There are no two bytes to fetch. -/
  | fetch (beyond : 0xffe < p) :
    Fails m now p i { m with lastStepAt := now } (.memoryAccess ((max p 0x1000 : Nat) : Rat))
  /-- The word stands for no instruction. -/
  | decode (inside : p ≤ 0xffe) (unknown : Instruction.decode (m.memory.wordAt p) = none) :
    Fails m now p i { m with lastStepAt := now }
      (.invalidInstruction p (m.memory.wordAt p))
  /-- There is nothing to return to. -/
  | ret (inside : p ≤ 0xffe) (found : Instruction.decode (m.memory.wordAt p) = some .ret)
    (empty : m.stack = []) :
    Fails m now p i { m with lastStepAt := now } (.stackUnderflow p)
  /-- There are fewer bytes from the index on than the instruction needs. -/
  | memory (inside : p ≤ 0xffe) {ins : Instruction}
    (found : Instruction.decode (m.memory.wordAt p) = some ins) (needs : 0 < ins.bytesNeeded)
    (beyond : 0x1000 < i + ins.bytesNeeded) :
    Fails m now p i (({ m with lastStepAt := now } : Machine).cutShort i ins)
      (.memoryAccess ((max i 0x1000 : Nat) : Rat))

/-- A failing step fails for one of the four reasons. -/
theorem fails_of_step (atPc : m.pc = (p : Rat)) (atIndex : m.i = (i : Rat))
    (failed : m.step now = (left, .error fault)) : m.Fails now p i left fault := by
  rcases (step_eq_error_iff atPc).mp failed with
    ⟨beyond, rfl, rfl⟩ | ⟨inside, unknown, rfl, rfl⟩ | ⟨inside, ins, found, done⟩
  · exact .fetch beyond
  · exact .decode inside unknown
  · rcases (execute_eq_error_iff (m := { m with lastStepAt := now }) atIndex).mp done with
      ⟨rfl, empty, rfl, rfl⟩ | ⟨runsOut, rfl⟩
    · have underflow : m.Fails now p i { m with lastStepAt := now } (.stackUnderflow p) :=
        .ret inside found empty
      rw [← atPc] at underflow
      exact underflow
    · obtain ⟨needs, beyond, rfl⟩ := Memory.runFault?_eq_some_iff.mp runsOut
      exact .memory inside found needs beyond

/-- Each of the four reasons makes a step fail. -/
theorem Fails.step_eq (fails : m.Fails now p i left fault) (atPc : m.pc = (p : Rat))
    (atIndex : m.i = (i : Rat)) : m.step now = (left, .error fault) := by
  rw [step_eq_error_iff atPc]
  cases fails with
  | fetch beyond => exact Or.inl ⟨beyond, rfl, rfl⟩
  | decode inside unknown => exact Or.inr (Or.inl ⟨inside, unknown, rfl, rfl⟩)
  | ret inside found empty =>
    refine Or.inr (Or.inr ⟨inside, .ret, found, ?_⟩)
    rw [← atPc]
    exact (execute_eq_error_iff (m := { m with lastStepAt := now }) atIndex).mpr
      (Or.inl ⟨rfl, empty, rfl, rfl⟩)
  | memory inside found needs beyond =>
    refine Or.inr (Or.inr ⟨inside, _, found, ?_⟩)
    have runsOut := Memory.runFault?_eq_some_iff.mpr ⟨needs, beyond, rfl⟩
    exact (execute_eq_error_iff (m := { m with lastStepAt := now }) atIndex).mpr
      (Or.inr ⟨runsOut, rfl⟩)

/-- **A step fails exactly for the four reasons, with the fault and the machine that belong
to them.**  On every failure the program counter, the index, the return stack, the timer
and the latch stay; the registers stay unless a load was cut short, memory unless a store
was, and the picture unless a sprite was. -/
theorem step_fails_iff (atPc : m.pc = (p : Rat)) (atIndex : m.i = (i : Rat)) :
    (m.step now = (left, .error fault) ↔ m.Fails now p i left fault) ∧
      (m.step now = (left, .error fault) →
        left.pc = m.pc ∧ left.i = m.i ∧ left.stack = m.stack ∧ left.timer = m.timer ∧
          left.latch = m.latch) := by
  refine ⟨⟨fails_of_step atPc atIndex, fun fails => fails.step_eq atPc atIndex⟩, ?_⟩
  intro failed
  obtain ⟨pc, index, stack, timer, latch, -⟩ := step_error_frame failed
  exact ⟨pc, index, stack, timer, latch⟩

/-- A machine about to store V0 to V3 two bytes before the end of memory. -/
def atTheEnd : Machine :=
  { ((create 0 (RandomStream.cycle [])).loadRom [0xf3, 0x55]).1 with
    v := Vector.ofFn fun r => UInt8.ofNat (r.val + 1)
    i := (0xffe : Nat) }

/-- Two of the four bytes are stored, and the fault names the end of memory. -/
theorem step_fails_atTheEnd :
    atTheEnd.pc = ((0x200 : Nat) : Rat) ∧ atTheEnd.i = ((0xffe : Nat) : Rat) ∧
      atTheEnd.step 5 =
        ({ atTheEnd with lastStepAt := 5, memory := atTheEnd.memory.overlay 0xffe [1, 2, 3, 4] },
          .error (.memoryAccess 4096)) := by
  refine ⟨rfl, rfl, ?_⟩
  have found : Instruction.decode (atTheEnd.memory.wordAt 0x200) = some (.store 3) := by
    decide +kernel
  exact (step_fails_iff rfl rfl).1.mpr (.memory (by decide) found (by decide) (by decide))

end Machine

end Chip8
