/-
# Chip8.Proofs.Stepping -- a step taken apart

A step succeeds in one way: the program counter is at a whole address at most `0xffe`, the
word there stands for an instruction, and that instruction executes without a fault
(`step_eq_ok_iff`).  It fails in one of three: there is no word to fetch, the word stands
for nothing, or the instruction ends at a fault (`step_eq_error_iff`).

Only a return and the four instructions that go through memory can fail.  With the index at
a whole address, `execute_error_iff` says exactly when.  What a fault leaves unchanged,
wherever the program counter and the index are, is `step_error_frame`.
-/
import Chip8.Proofs.Execution

set_option autoImplicit false

namespace Chip8.Machine

variable {m left after : Machine} {now : Rat} {here next word p i : Nat} {ins : Instruction}
  {fault : Fault}

/-! ## Where the program goes on -/

theorem pc_add (atPc : m.pc = (here : Rat)) (bytes : Nat) :
    m.pc + (bytes : Rat) = ((here + bytes : Nat) : Rat) := by
  rw [atPc]
  exact (Rat.natCast_add here bytes).symm

theorem skipIf_natCast (condition : Bool) :
    ((skipIf here condition : Nat) : Rat) =
      if condition then (here : Rat) + 4 else (here : Rat) + 2 := by
  cases condition with
  | false => exact Rat.natCast_add here 2
  | true => exact Rat.natCast_add here 4

theorem wrapWord_lt (q : Rat) : wrapWord q < 65536 := by
  unfold wrapWord
  omega

theorem unlessFault_snd (m : Machine) (fault : Option Fault) (next : Nat) :
    (m.unlessFault fault next).2 =
      match fault with
      | some f => .error f
      | none => .ok next := by
  cases fault <;> rfl

/-- An instruction other than a return answers the place where the program goes on. -/
theorem execute_next_of_ne_ret (atPc : m.pc = (here : Rat)) (other : ins ≠ .ret)
    (ok : (m.execute now here ins).2 = .ok next) : (next : Rat) = m.nextPc ins := by
  have plain : ((here + 2 : Nat) : Rat) = m.pc + 2 := (pc_add atPc 2).symm
  cases ins with
  | ret => exact absurd rfl other
  | jump target | call target =>
    cases ok
    rfl
  | jumpOffset target =>
    cases ok
    exact Rat.natCast_add target.val _
  | skipEqByte x byte | skipNeByte x byte | skipEq x y | skipNe x y | skipPressed x
  | skipReleased x =>
    cases ok
    rw [skipIf_natCast, ← atPc]
    simp [nextPc, Instruction.skips, Latch.isPressed]
  | waitKey x =>
    simp only [execute] at ok
    rw [nextPc]
    cases key : m.latch.key with
    | none =>
      rw [key] at ok
      cases ok
      rw [if_pos rfl, atPc]
    | some code =>
      rw [key] at ok
      cases ok
      rw [if_neg (by simp), plain]
  | draw x y rows =>
    simp only [execute] at ok
    split at ok
    · cases ok
    · cases ok
      exact plain
  | storeDecimal x | store x | load x =>
    simp only [execute, unlessFault_snd] at ok
    split at ok
    · cases ok
    · cases ok
      exact plain
  | _ =>
    cases ok
    exact plain

/-- The place that an instruction answers is where the program goes on, modulo `2 ^ 16`. -/
theorem execute_next (atPc : m.pc = (here : Rat))
    (ok : (m.execute now here ins).2 = .ok next) : next % 65536 = wrapWord (m.nextPc ins) := by
  by_cases ret : ins = .ret
  · subst ret
    simp only [execute] at ok
    cases entries : m.stack with
    | nil =>
      rw [entries] at ok
      cases ok
    | cons top rest =>
      rw [entries] at ok
      cases ok
      rw [Nat.mod_eq_of_lt (wrapWord_lt top), nextPc, entries, List.headD_cons]
  · rw [← execute_next_of_ne_ret atPc ret ok, wrapWord_natCast]

/-! ## Faults of an instruction -/

/-- **An instruction fails only if it is a return with nothing to return to, or needs bytes
that are not there.** -/
theorem execute_error_iff (atIndex : m.i = (i : Rat)) :
    (m.execute now here ins).2 = .error fault ↔
      (ins = .ret ∧ m.stack = [] ∧ fault = .stackUnderflow m.pc) ∨
        Memory.runFault? i ins.bytesNeeded = some fault := by
  cases ins with
  | ret =>
    cases entries : m.stack with
    | nil => simp [execute, entries, Instruction.bytesNeeded, Memory.runFault?, eq_comm]
    | cons top rest => simp [execute, entries, Instruction.bytesNeeded, Memory.runFault?]
  | draw x y rows =>
    simp only [execute, atIndex, Memory.readFrom_natCast, Instruction.bytesNeeded]
    cases Memory.runFault? i rows.val <;> simp
  | storeDecimal x =>
    simp only [execute, atIndex, Memory.writeFrom_natCast, Instruction.bytesNeeded,
      unlessFault_snd, decimalDigits, List.length_cons, List.length_nil]
    cases Memory.runFault? i 3 <;> simp
  | store x =>
    simp only [execute, atIndex, Memory.writeFrom_natCast, Instruction.bytesNeeded,
      unlessFault_snd, length_take_registers]
    cases Memory.runFault? i (x.val + 1) <;> simp
  | load x =>
    simp only [execute, atIndex, Memory.readFrom_natCast, Instruction.bytesNeeded,
      unlessFault_snd]
    cases Memory.runFault? i (x.val + 1) <;> simp
  | waitKey x =>
    cases key : m.latch.key <;>
      simp [execute, key, Instruction.bytesNeeded, Memory.runFault?]
  | _ => simp [execute, Instruction.bytesNeeded, Memory.runFault?]

/-- A fault leaves the index, the return stack, the timer and the random stream alone. -/
theorem execute_error_frame (failed : (m.execute now here ins).2 = .error fault) :
    (m.execute now here ins).1.i = m.i ∧ (m.execute now here ins).1.stack = m.stack ∧
      (m.execute now here ins).1.timer = m.timer ∧
      (m.execute now here ins).1.random = m.random := by
  cases ins with
  | ret =>
    simp only [execute] at failed ⊢
    cases entries : m.stack with
    | nil => exact ⟨rfl, entries, rfl, rfl⟩
    | cons top rest =>
      rw [entries] at failed
      cases failed
  | draw x y rows | storeDecimal x | store x | load x =>
    exact ⟨execute_index m now here id, execute_stack m now here _, execute_timer m now here id,
      execute_random m now here _⟩
  | waitKey x =>
    simp only [execute] at failed
    split at failed <;> cases failed
  | _ => cases failed

/-! ## Fetching -/

/-- **A word can be fetched from every whole address but the last.** -/
theorem fetch_natCast (atPc : m.pc = (p : Rat)) :
    m.fetch =
      if p ≤ 0xffe then .ok (p, m.memory.wordAt p)
      else .error (.memoryAccess ((max p 0x1000 : Nat) : Rat)) := by
  by_cases inside : p < 4096
  · rw [fetch, atPc, Memory.address?_of_lt inside, Memory.next_address]
    by_cases pair : p + 1 < 4096
    · rw [Memory.read_of_lt _ pair, if_pos (by omega), Memory.wordAt,
        Memory.byteAt_eq_get _ inside]
    · have last : max p 0x1000 = p + 1 := by omega
      rw [Memory.read_of_le _ (Nat.le_of_not_lt pair), if_neg (by omega), last]
  · rw [fetch, atPc, Memory.address?_of_le (Nat.le_of_not_lt inside), if_neg (by omega),
      Nat.max_eq_left (Nat.le_of_not_lt inside)]

theorem fetch_eq_ok_iff {word : Nat} :
    m.fetch = .ok (here, word) ↔
      m.pc = (here : Rat) ∧ here ≤ 0xffe ∧ m.memory.wordAt here = word := by
  constructor
  · intro fetched
    have found : ∃ k, Memory.address? m.pc = some k := by
      unfold fetch at fetched
      split at fetched
      · exact ⟨_, ‹_›⟩
      · cases fetched
    obtain ⟨k, found⟩ := found
    have atPc := Memory.address?_eq_some found
    rw [fetch_natCast atPc] at fetched
    split at fetched
    · cases fetched
      exact ⟨atPc, ‹_›, rfl⟩
    · cases fetched
  · rintro ⟨atPc, inside, rfl⟩
    rw [fetch_natCast atPc, if_pos inside]

/-! ## Stepping -/

/-- A machine that fetches a word for an instruction executes that instruction. -/
theorem step_of_some (fetched : m.fetch = .ok (here, word))
    (found : Instruction.decode word = some ins) :
    m.step now =
      match ({ m with lastStepAt := now } : Machine).execute now here ins with
      | (left, .error fault) => (left, .error fault)
      | (left, .ok next) => ({ left with pc := ((next % 65536 : Nat) : Rat) }, .ok ins) := by
  have again : ({ m with lastStepAt := now } : Machine).fetch = .ok (here, word) := fetched
  rcases done : ({ m with lastStepAt := now } : Machine).execute now here ins with
    ⟨left, fault | next⟩
  all_goals simp only [step, again, found, done]

/-- A machine that fetches any other word stops there. -/
theorem step_of_none (fetched : m.fetch = .ok (here, word))
    (unknown : Instruction.decode word = none) :
    m.step now = ({ m with lastStepAt := now }, .error (.invalidInstruction m.pc word)) := by
  have again : ({ m with lastStepAt := now } : Machine).fetch = .ok (here, word) := fetched
  simp only [step, again, unknown]

/-- **How a step succeeds.** -/
theorem step_eq_ok_iff :
    m.step now = (after, .ok ins) ↔
      ∃ here next : Nat, m.pc = (here : Rat) ∧ here ≤ 0xffe ∧
        Instruction.decode (m.memory.wordAt here) = some ins ∧
        (({ m with lastStepAt := now } : Machine).execute now here ins).2 = .ok next ∧
        after = { (({ m with lastStepAt := now } : Machine).execute now here ins).1 with
          pc := ((next % 65536 : Nat) : Rat) } := by
  constructor
  · intro ok
    simp only [step] at ok
    split at ok
    · cases ok
    · rename_i here word fetched
      obtain ⟨atPc, inside, rfl⟩ := fetch_eq_ok_iff.mp fetched
      split at ok
      · cases ok
      · rename_i found
        split at ok
        · cases ok
        · rename_i left next done
          cases ok
          refine ⟨here, next, atPc, inside, found, congrArg Prod.snd done, ?_⟩
          rw [done]
  · rintro ⟨here, next, atPc, inside, found, answer, rfl⟩
    have fetched : ({ m with lastStepAt := now } : Machine).fetch =
        .ok (here, m.memory.wordAt here) := fetch_eq_ok_iff.mpr ⟨atPc, inside, rfl⟩
    rcases done : ({ m with lastStepAt := now } : Machine).execute now here ins with ⟨left, result⟩
    rw [done] at answer
    cases answer
    simp only [step, fetched, found, done]

/-- **How a step fails.** -/
theorem step_eq_error_iff (atPc : m.pc = (p : Rat)) :
    m.step now = (left, .error fault) ↔
      (0xffe < p ∧ left = { m with lastStepAt := now } ∧
        fault = .memoryAccess ((max p 0x1000 : Nat) : Rat)) ∨
      (p ≤ 0xffe ∧ Instruction.decode (m.memory.wordAt p) = none ∧
        left = { m with lastStepAt := now } ∧
        fault = .invalidInstruction p (m.memory.wordAt p)) ∨
      (p ≤ 0xffe ∧ ∃ ins, Instruction.decode (m.memory.wordAt p) = some ins ∧
        ({ m with lastStepAt := now } : Machine).execute now p ins = (left, .error fault)) := by
  have fetched := fetch_natCast (m := { m with lastStepAt := now }) atPc
  by_cases inside : p ≤ 0xffe
  · have notBeyond : ¬ 0xffe < p := Nat.not_lt_of_le inside
    rw [if_pos inside] at fetched
    simp only [step, fetched]
    cases found : Instruction.decode (m.memory.wordAt p) with
    | none => simp [inside, notBeyond, atPc, eq_comm]
    | some ins =>
      rcases done : ({ m with lastStepAt := now } : Machine).execute now p ins with ⟨m', f | next⟩
      · simp [inside, notBeyond, done]
      · simp [inside, notBeyond, done]
  · rw [if_neg inside] at fetched
    simp only [step, fetched]
    simp [inside, Nat.lt_of_not_le inside, eq_comm]

/-- An instruction stands at the program counter, both of its bytes inside memory. -/
def Upcoming (m : Machine) (ins : Instruction) : Prop :=
  ∃ here : Nat, m.pc = (here : Rat) ∧ here ≤ 0xffe ∧
    Instruction.decode (m.memory.wordAt here) = some ins

theorem Upcoming.unique {ins' : Instruction} (upcoming : m.Upcoming ins)
    (upcoming' : m.Upcoming ins') : ins = ins' := by
  obtain ⟨here, atPc, -, found⟩ := upcoming
  obtain ⟨here', atPc', -, found'⟩ := upcoming'
  obtain rfl : here = here' := by
    rw [atPc] at atPc'
    exact Rat.natCast_inj.mp atPc'
  exact Option.some.inj (found.symm.trans found')

/-- A step leaves the machine as it was but for the time, or as the instruction at the program
counter leaves it but for that counter. -/
theorem step_fst_cases (m : Machine) (now : Rat) :
    (m.step now).1 = { m with lastStepAt := now } ∨
      ∃ here ins pc, m.Upcoming ins ∧ (m.step now).1 =
        { (({ m with lastStepAt := now } : Machine).execute now here ins).1 with pc } := by
  rcases fetched : ({ m with lastStepAt := now } : Machine).fetch with fault | ⟨here, word⟩
  · left
    simp only [step, fetched]
  · obtain ⟨atPc, inside, rfl⟩ := fetch_eq_ok_iff.mp fetched
    cases found : Instruction.decode (m.memory.wordAt here) with
    | none =>
      left
      simp only [step, fetched, found]
    | some ins =>
      right
      rcases done : ({ m with lastStepAt := now } : Machine).execute now here ins with
        ⟨left, fault | next⟩
      · refine ⟨here, ins, left.pc, ⟨here, atPc, inside, found⟩, ?_⟩
        simp only [step, fetched, found, done]
      · refine ⟨here, ins, ((next % 65536 : Nat) : Rat), ⟨here, atPc, inside, found⟩, ?_⟩
        simp only [step, fetched, found, done]

/-- A failing step leaves the program counter, the index, the return stack, the timer, the
latch and the random stream alone. -/
theorem step_error_frame (failed : m.step now = (left, .error fault)) :
    left.pc = m.pc ∧ left.i = m.i ∧ left.stack = m.stack ∧ left.timer = m.timer ∧
      left.latch = m.latch ∧ left.random = m.random := by
  rcases fetched : ({ m with lastStepAt := now } : Machine).fetch with f | ⟨place, word⟩
  · simp only [step, fetched] at failed
    cases failed
    exact ⟨rfl, rfl, rfl, rfl, rfl, rfl⟩
  · cases found : Instruction.decode word with
    | none =>
      simp only [step, fetched, found] at failed
      cases failed
      exact ⟨rfl, rfl, rfl, rfl, rfl, rfl⟩
    | some ins =>
      have pc := execute_pc { m with lastStepAt := now } now place ins
      have latch := execute_latch { m with lastStepAt := now } now place ins
      rcases done : ({ m with lastStepAt := now } : Machine).execute now place ins with
        ⟨m', f | next⟩
      · obtain ⟨index, stack, timer, random⟩ := execute_error_frame (congrArg Prod.snd done)
        rw [done] at pc latch index stack timer random
        simp only [step, fetched, found, done] at failed
        cases failed
        exact ⟨pc, index, stack, timer, latch, random⟩
      · simp only [step, fetched, found, done] at failed
        cases failed

end Chip8.Machine
