/-
# Chip8.Proofs.TraceLines -- what the trace tells

A host that traces writes a line after every so many instructions.  The line is written after
the instruction, from the program counter before it and the instruction that the step has
answered, so it tells of two machines: that before the move, where the word of the instruction
still stands, and that after it (`Machine.Traced`).  Its columns are `Machine.tracedLine`.

A move executes an instruction or none (`moveInstruction?`), and the journal grows by a line
exactly where the number of the instruction is a multiple of the interval (`traces_move`).  So
the lines are those of every `N`-th of the executions (`EveryNth`), in their order:
`trace_lines_are_faithful`.
-/
import Chip8.Proofs.AssemblyText
import Chip8.Proofs.Escapes

set_option autoImplicit false

namespace Chip8

/-! ## Every so many -/

section EveryNth

variable {α β : Type} {N : Nat} {R : α → β → Prop} {xs : List α} {ys : List β} {x : α} {y : β}

/-- The second list has an element for every `N`-th of the first, and each is related to it. -/
structure EveryNth (N : Nat) (R : α → β → Prop) (xs : List α) (ys : List β) : Prop where
  length : ys.length = xs.length / N
  related : ∀ k y, ys[k]? = some y → ∃ x, xs[N * (k + 1) - 1]? = some x ∧ R x y

namespace EveryNth

theorem nil : EveryNth N R [] [] where
  length := (Nat.zero_div N).symm
  related := by
    intro k y listed
    cases listed

/-- What was related stays so when the first list grows. -/
theorem related_append (every : EveryNth N R xs ys) (x : α) {k : Nat} (listed : ys[k]? = some y) :
    ∃ x', (xs ++ [x])[N * (k + 1) - 1]? = some x' ∧ R x' y := by
  obtain ⟨x', listed', relates⟩ := every.related k y listed
  obtain ⟨inside, -⟩ := List.getElem?_eq_some_iff.mp listed'
  refine ⟨x', ?_, relates⟩
  rw [List.getElem?_append_left inside]
  exact listed'

/-- An element whose number is no multiple of `N` is passed over. -/
theorem pass (every : EveryNth N R xs ys) (other : ¬ N ∣ xs.length + 1) :
    EveryNth N R (xs ++ [x]) ys where
  length := by
    rw [every.length, List.length_append, List.length_singleton, Nat.succ_div_of_not_dvd other]
  related := fun _ _ listed => every.related_append x listed

/-- An element whose number is a multiple of `N` is met by one of the second list. -/
theorem meet (every : EveryNth N R xs ys) (multiple : N ∣ xs.length + 1) (relates : R x y) :
    EveryNth N R (xs ++ [x]) (ys ++ [y]) where
  length := by
    rw [List.length_append, List.length_singleton, List.length_append, List.length_singleton,
      every.length, Nat.succ_div_of_dvd multiple]
  related := by
    intro k y' listed
    rcases Nat.lt_or_ge k ys.length with earlier | last
    · rw [List.getElem?_append_left earlier] at listed
      exact every.related_append x listed
    · rw [List.getElem?_append_right last, List.getElem?_singleton] at listed
      obtain ⟨same, rfl⟩ : k - ys.length = 0 ∧ y = y' := by
        split at listed
        · exact ⟨‹_›, Option.some.inj listed⟩
        · cases listed
      -- the quotient grows here, so the number of the new element is the whole multiple
      have number : N * (k + 1) = xs.length + 1 := by
        have here : k = xs.length / N := by
          rw [← every.length]
          omega
        rw [here, ← Nat.succ_div_of_dvd multiple]
        exact Nat.mul_div_cancel' multiple
      refine ⟨x, ?_, relates⟩
      rw [number, Nat.add_sub_cancel, List.getElem?_append_right (Nat.le_refl _), Nat.sub_self]
      rfl

end EveryNth

end EveryNth

/-! ## Traces in a journal -/

namespace Log.Journal

/-- The entries of a journal that are neither errors nor warnings. -/
def traces (j : Journal) : List Entry := j.toList.filter (·.channel == .log)

theorem traces_write_error (j : Journal) (l : Logger) (args : List Arg) :
    (j.write l .error args).traces = j.traces := by
  cases enabled : l.enabled .error with
  | false => simp [write, Logger.entry?, enabled]
  | true => simp [write, Logger.entry?, enabled, traces, Level.channel]

theorem traces_write_trace (j : Journal) {l : Logger} (enabled : l.enabled .trace = true)
    (args : List Arg) :
    (j.write l .trace args).traces =
      j.traces ++ [{ channel := .log, args := .text ("[" ++ l.tag ++ "]") :: args }] := by
  simp [write, Logger.entry?, enabled, traces, Level.channel]

end Log.Journal

/-! ## Lines -/

namespace Machine

/-- The line for an instruction that stood at an address.  It shows three digits of the address,
the text and as many spaces as it is short of eighteen characters, and then, of the machine that
the instruction leaves, the index with zeros in front up to four characters, the number of open
calls and two digits of every register. -/
def tracedLine (address : Nat) (text : String) (after : Machine) : String :=
  String.ofList (Hexadecimal.spelled Nat.digitChar 3 address) ++ " " ++
    (text ++ String.ofList (List.replicate (18 - text.length) ' ')) ++ " I=" ++
    (String.ofList (List.replicate (4 - (Hexadecimal.text after.i).length) '0') ++
      Hexadecimal.text after.i) ++
    " SP=" ++ toString after.stack.length ++ " V=" ++
    " ".intercalate (after.v.toList.map fun value =>
      String.ofList (Hexadecimal.spelled Nat.digitChar 2 value.toNat))

/-- A host traces this line. -/
theorem traceLine_eq {address : Nat} (room : address < 4096) (ins : Instruction)
    (after : Machine) :
    Host.traceLine (address : Rat) ins after = tracedLine address ins.text after := by
  have registers : Hexadecimal.ofByte = fun value =>
      String.ofList (Hexadecimal.spelled Nat.digitChar 2 value.toNat) := by
    funext value
    have byte : value.toNat < 256 := value.toNat_lt
    exact Hexadecimal.padded_word byte (Nat.lt_trans byte (by decide))
  have index : Hexadecimal.padded 4 after.i =
      String.ofList (List.replicate (4 - (Hexadecimal.text after.i).length) '0') ++
        Hexadecimal.text after.i := padLeft_eq 4 '0' _
  rw [Host.traceLine, Hexadecimal.padded_word room (Nat.lt_trans room (by decide)), padRight_eq,
    index, registers, tracedLine]

/-- An entry of the journal tells of the instruction that has led from one machine to another.
Of the machine before it shows the program counter and the text of the word that stood there, and
of the machine after it the index, the number of open calls and the registers. -/
def Traced (before : Machine) (ins : Instruction) (after : Machine) (entry : Log.Entry) : Prop :=
  ∃ p : Nat, before.pc = (p : Rat) ∧ p ≤ 0xffe ∧
    Instruction.decode (before.memory.wordAt p) = some ins ∧
    entry = { channel := .log, args :=
      [.text "[sched]", .text (tracedLine p (Word.text (before.memory.wordAt p)) after)] }

end Machine

namespace Host

variable {σ : Type}

theorem flushPhase_journal (h : Host σ) : h.flushPhase.journal = h.journal := by
  unfold flushPhase
  split <;> rfl

/-- The interval of a small number is the number. -/
theorem traceIntervalOf_natCast {N : Nat} (small : N < 2 ^ 31) :
    traceIntervalOf (N : Rat) = (N : Int) := by
  rw [traceIntervalOf, atLeastZero_natCast, wrapSigned32_natCast small]

theorem isTraced_natCast {N : Nat} (positive : 1 ≤ N) (number : Nat) :
    isTraced (N : Int) number = decide (N ∣ number) := by
  have positive' : (0 : Int) < (N : Int) := by omega
  rw [isTraced, decide_eq_true positive', Bool.true_and, decide_eq_decide,
    ← Int.dvd_iff_emod_eq_zero, Int.natCast_dvd_natCast]

theorem isTraced_of_nonpos {interval : Int} (off : interval ≤ 0) (number : Nat) :
    isTraced interval number = false := by
  simp [isTraced, Int.not_lt.mpr off]

/-- The entry that the trace of an instruction adds to the journal. -/
def traceEntry (pc : Rat) (ins : Instruction) (m : Machine) : Log.Entry :=
  { channel := .log, args := [.text "[sched]", .text (traceLine pc ins m)] }

/-- An instruction that has succeeded is told if its number is a multiple of the interval. -/
theorem traces_succeeded {h : Host σ} {N : Nat} (positive : 1 ≤ N)
    (interval : h.settings.traceInterval = (N : Int)) (enabled : h.logger.enabled .trace = true)
    (pc : Rat) (ins : Instruction) :
    (h.succeeded pc ins).journal.traces =
      h.journal.traces ++ if N ∣ h.executed + 1 then [traceEntry pc ins h.machine] else [] := by
  simp only [succeeded, interval, isTraced_natCast positive, decide_eq_true_eq]
  split
  · exact Log.Journal.traces_write_trace _ enabled _
  · exact (List.append_nil _).symm

section Rounds

variable [InputSource σ] {h : Host σ} {ins : Instruction} {N : Nat}

/-- **The line of a round**: one is written if the number of the instruction is a multiple of
the interval, and it tells of the machines before and after the round. -/
theorem traces_poll_of_instruction (positive : 1 ≤ N)
    (interval : h.settings.traceInterval = (N : Int))
    (enabled : h.logger.enabled .trace = true) (executes : h.roundInstruction? = some ins) :
    ∃ entry, h.machine.Traced ins h.poll.1.machine entry ∧
      h.poll.1.journal.traces =
        h.journal.traces ++ if N ∣ h.executed + 1 then [entry] else [] := by
  obtain ⟨left, shown, ok, after⟩ := poll_machine_of_instruction executes
  obtain ⟨p, atPc, inside, found⟩ := Machine.step_decoded ok
  have phase := stepPhase_of_ok (roundInstruction?_eq_some_iff.mp executes).1 ok
  have lines : h.poll.1.journal.traces =
      ({ h.answered with machine := left }.succeeded h.answered.machine.pc ins).journal.traces := by
    simp only [poll, takeInput_eq, phase, flushPhase_journal]
  refine ⟨traceEntry h.machine.pc ins left, ⟨p, atPc, inside, found, ?_⟩, ?_⟩
  · have atPc' : h.machine.pc = (p : Rat) := atPc
    have found' : Instruction.decode (h.machine.memory.wordAt p) = some ins := found
    rw [after, atPc', Word.text_of_some found', traceEntry,
      Machine.traceLine_eq (Nat.lt_of_le_of_lt inside (by decide))]
    rfl
  · rw [lines]
    exact traces_succeeded (h := { h.answered with machine := left }) positive interval enabled
      _ ins

/-- A round that executes nothing writes no line, and its fault is no line either. -/
theorem traces_poll_of_none (idle : h.roundInstruction? = none) :
    h.poll.1.journal.traces = h.journal.traces := by
  have stepped : h.answered.stepPhase.1.journal.traces = h.journal.traces := by
    rcases stepPhase_cases h.answered with ⟨closed, phase⟩ | ⟨left, ins, due, ok, phase⟩ |
      ⟨left, fault, due, failed, phase⟩
    · rw [phase]
      rfl
    · rw [roundInstruction?_eq_some_iff.mpr ⟨due, left, ok⟩] at idle
      cases idle
    · rw [phase, Host.failed]
      split
      · rfl
      · exact Log.Journal.traces_write_error _ _ _
  rcases h.poll_fst_cases with left | left
  · rw [left, stepped]
  · rw [left, flushPhase_journal, stepped]

/-- Without an interval a round writes no line, whatever it executes. -/
theorem traces_poll_of_untraced (off : h.settings.traceInterval ≤ 0) :
    h.poll.1.journal.traces = h.journal.traces := by
  cases executes : h.roundInstruction? with
  | none => exact traces_poll_of_none executes
  | some ins =>
    obtain ⟨due, left, ok⟩ := roundInstruction?_eq_some_iff.mp executes
    have phase := stepPhase_of_ok due ok
    have silent : isTraced h.answered.settings.traceInterval (h.answered.executed + 1) = false :=
      isTraced_of_nonpos off _
    have asked : h.answered.journal = h.journal := rfl
    simp [poll, takeInput_eq, phase, flushPhase_journal, succeeded, silent, asked]

/-! ## Moves -/

/-- The instruction that a move executes, if it executes one. -/
def moveInstruction? (h : Host σ) : Move → Option Instruction
  | .poll => h.roundInstruction?
  | _ => none

/-- Which of the first moves of a sequence execute an instruction, in their order. -/
def executions (h : Host σ) (moves : Nat → Move) (n : Nat) : List Nat :=
  (List.range n).filter fun k => ((h.moved moves k).moveInstruction? (moves k)).isSome

theorem executions_succ (h : Host σ) (moves : Nat → Move) (n : Nat) :
    h.executions moves (n + 1) = h.executions moves n ++
      if ((h.moved moves n).moveInstruction? (moves n)).isSome then [n] else [] := by
  rw [executions, List.range_succ, List.filter_append, List.filter_singleton, cond_eq_ite]
  rfl

/-- A move that executes nothing writes no line and counts no instruction. -/
theorem move_of_idle {move : Move} (idle : h.moveInstruction? move = none) :
    (h.move move).executed = h.executed ∧
      (h.move move).journal.traces = h.journal.traces := by
  cases move with
  | setClock time | advance ms => exact ⟨rfl, rfl⟩
  | poll =>
    have idle' : h.roundInstruction? = none := idle
    refine ⟨?_, traces_poll_of_none idle'⟩
    rw [Host.move, poll_executed, idle']
    rfl

/-- The move in which an instruction is executed is a round. -/
theorem eq_poll_of_moveInstruction {move : Move} (executes : h.moveInstruction? move = some ins) :
    move = .poll ∧ h.roundInstruction? = some ins := by
  cases move with
  | setClock time | advance ms => cases executes
  | poll => exact ⟨rfl, executes⟩

/-- A move of a sequence executes an instruction of which an entry tells. -/
def TracedMove (h : Host σ) (moves : Nat → Move) (k : Nat) (entry : Log.Entry) : Prop :=
  ∃ ins, (h.moved moves k).moveInstruction? (moves k) = some ins ∧
    (h.moved moves k).machine.Traced ins (h.moved moves (k + 1)).machine entry

/-- The lines written so far are those of every `N`-th execution so far. -/
structure TracesKept (h : Host σ) (N : Nat) (moves : Nat → Move) (n : Nat) : Prop where
  executed : (h.moved moves n).executed = (h.executions moves n).length
  every : EveryNth N (h.TracedMove moves) (h.executions moves n) (h.moved moves n).journal.traces

/-- A move keeps that. -/
theorem TracesKept.succ {moves : Nat → Move} {n : Nat} (kept : h.TracesKept N moves n)
    (positive : 1 ≤ N) (interval : h.settings.traceInterval = (N : Int))
    (enabled : h.logger.enabled .trace = true) : h.TracesKept N moves (n + 1) := by
  obtain ⟨executed, every⟩ := kept
  cases moved : (h.moved moves n).moveInstruction? (moves n) with
  | none =>
    obtain ⟨count, lines⟩ := move_of_idle moved
    have same : h.executions moves (n + 1) = h.executions moves n := by
      rw [executions_succ, moved]
      exact List.append_nil _
    constructor
    · rw [same, ← executed]
      exact count
    · rw [same, Host.moved, lines]
      exact every
  | some ins =>
    obtain ⟨poll, executes⟩ := eq_poll_of_moveInstruction moved
    have settings : (h.moved moves n).settings = h.settings := h.moved_settings moves n
    have interval' : (h.moved moves n).settings.traceInterval = (N : Int) := by
      rw [settings, interval]
    have enabled' : (h.moved moves n).logger.enabled .trace = true := by
      rw [logger, settings]
      exact enabled
    obtain ⟨entry, traced, lines⟩ := traces_poll_of_instruction positive interval' enabled' executes
    have after : h.moved moves (n + 1) = (h.moved moves n).poll.1 := by
      rw [Host.moved, poll]
      rfl
    have grown : h.executions moves (n + 1) = h.executions moves n ++ [n] := by
      rw [executions_succ, moved]
      rfl
    have tells : h.TracedMove moves n entry := by
      refine ⟨ins, moved, ?_⟩
      rw [after]
      exact traced
    constructor
    · rw [grown, after, poll_executed, executes, executed, List.length_append]
      rfl
    · rw [grown, after, lines, executed]
      split
      · exact every.meet ‹_› tells
      · rw [List.append_nil]
        exact every.pass ‹_›

/-- **The run of a new host keeps it.** -/
theorem tracesKept_create (settings : Settings) (m : Machine) (clock : Rat) (source : σ)
    (moves : Nat → Move) (n : Nat) (positive : 1 ≤ N)
    (interval : settings.traceInterval = (N : Int))
    (enabled : (create settings m clock source).logger.enabled .trace = true) :
    (create settings m clock source).TracesKept N moves n := by
  induction n with
  | zero => exact ⟨rfl, .nil⟩
  | succ n ih => exact ih.succ positive interval enabled

/-- Without an interval nothing is told of a run. -/
theorem traces_moved_of_untraced (off : h.settings.traceInterval ≤ 0) (moves : Nat → Move)
    (n : Nat) : (h.moved moves n).journal.traces = h.journal.traces := by
  induction n with
  | zero => rfl
  | succ n ih =>
    rw [Host.moved, ← ih]
    cases moves n with
    | setClock time | advance ms => rfl
    | poll =>
      have off' : (h.moved moves n).settings.traceInterval ≤ 0 := by
        rwa [h.moved_settings moves n]
      exact traces_poll_of_untraced off'

/-- **The trace is faithful.**  A host with a machine in any state traces every `N`-th
instruction, and its clock is moved and it is asked for rounds.  Then the host has counted the
moves that have executed an instruction.  Its journal has one line for every `N` of them, and
line `k`, counted from zero, tells of the execution with the number `N * (k + 1)`: of the program
counter and the word there before the move, whatever the instruction has done to them, and of
the index, the open calls and the registers after it.  A round that ends with a fault adds no
line. -/
theorem trace_lines_are_faithful (settings : Settings) (m : Machine) (clock : Rat) (source : σ)
    (moves : Nat → Move) (n : Nat) (positive : 1 ≤ N) (small : N < 2 ^ 31)
    (interval : settings.traceInterval = traceIntervalOf (N : Rat))
    (enabled : (create settings m clock source).logger.enabled .trace = true) :
    let h := create settings m clock source
    let now := h.moved moves n
    now.executed = (h.executions moves n).length ∧
    now.journal.traces.length = now.executed / N ∧
    (∀ k entry, now.journal.traces[k]? = some entry →
      ∃ j ins, (h.executions moves n)[N * (k + 1) - 1]? = some j ∧
        (h.moved moves j).moveInstruction? (moves j) = some ins ∧
        (h.moved moves j).machine.Traced ins (h.moved moves (j + 1)).machine entry) ∧
    ∀ j, moves j = .poll → (h.moved moves j).roundFault?.isSome = true →
      (h.moved moves (j + 1)).journal.traces = (h.moved moves j).journal.traces := by
  intro h now
  have everyN : h.settings.traceInterval = (N : Int) := by
    rw [← traceIntervalOf_natCast small]
    exact interval
  have kept : h.TracesKept N moves n :=
    tracesKept_create settings m clock source moves n positive everyN enabled
  refine ⟨kept.executed, ?_, ?_, ?_⟩
  · rw [kept.executed]
    exact kept.every.length
  · intro k entry listed
    obtain ⟨j, execution, ins, executes, traced⟩ := kept.every.related k entry listed
    exact ⟨j, ins, execution, executes, traced⟩
  · intro j poll fails
    obtain ⟨fault, fails⟩ := Option.isSome_iff_exists.mp fails
    obtain ⟨due, failed⟩ := roundFault?_eq_some_iff.mp fails
    obtain ⟨left, tried⟩ := Machine.step_of_fault failed
    have idle : (h.moved moves j).roundInstruction? = none := by
      rw [roundInstruction?, if_pos due, tried]
      rfl
    rw [Host.moved, poll]
    exact traces_poll_of_none idle

/-- A program that points the index at its second instruction, which stores V0 over itself. -/
def storeOverItself : List Rat := [0xa2, 0x02, 0xf0, 0x55]

/-- Its second instruction is the first to be traced when every second is.  The line shows the
word of the store, which is no longer in memory. -/
theorem trace_lines_are_faithful_storeOverItself :
    let h := create { watched with traceInterval := 2, hostLevel := .trace }
      (Machine.loaded 0 (RandomStream.cycle []) storeOverItself) 0 ()
    let now := h.moved everyThree
    ∃ entry, (now 4).journal.traces = [entry] ∧
      (now 3).machine.Traced (.store 0) (now 4).machine entry ∧
      (now 3).machine.memory.wordAt 0x202 = 0xf055 ∧
      (now 4).machine.memory.wordAt 0x202 = 0x55 := by
  intro h now
  have seen : (now 4).executed = 2 ∧ h.executions everyThree 4 = [1, 3] ∧
      (now 3).roundInstruction? = some (.store 0) ∧
      (now 3).machine.memory.wordAt 0x202 = 0xf055 ∧
      (now 4).machine.memory.wordAt 0x202 = 0x55 := by decide +kernel
  obtain ⟨two, rounds, store, before, after⟩ := seen
  obtain ⟨-, length, lines, -⟩ :=
    trace_lines_are_faithful { watched with traceInterval := 2, hostLevel := .trace }
      (Machine.loaded 0 (RandomStream.cycle []) storeOverItself) 0 () everyThree 4
      (by decide : 1 ≤ 2) (by decide) (by decide +kernel) (by decide)
  have one : (now 4).journal.traces.length = 1 := by
    rw [length, two]
  obtain ⟨entry, only⟩ := List.length_eq_one_iff.mp one
  obtain ⟨j, ins, execution, executes, traced⟩ := lines 0 entry (by rw [only]; rfl)
  rw [rounds] at execution
  obtain rfl : 3 = j := Option.some.inj execution
  obtain rfl : .store 0 = ins := Option.some.inj (store.symm.trans executes)
  exact ⟨entry, only, traced, before, after⟩

end Rounds

end Host

end Chip8
