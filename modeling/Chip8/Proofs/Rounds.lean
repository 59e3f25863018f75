/-
# Chip8.Proofs.Rounds -- a round taken apart

The phases of a round have closed forms.  The input phase never ends a round: it leaves
`answered`, where the latch is pressed or, if its hold is over, emptied (`takeInput_eq`).
The step phase is known field by field: one step if it is due, a count more if the step
succeeds, its fault if it does not (`stepPhase_machine`, `stepPhase_executed`,
`stepPhase_fault`).  The flush phase touches the frames only.

A round is over after one of the last two (`poll_fst_cases`).  It asks the source once, it
moves the clock only as the source does, and the latch is left as the input phase leaves it
(`poll_input`, `poll_clock`, `poll_latch`).  The machine is left as its step leaves it, but for
the time of a frame (`poll_machine`).  A step executes an instruction (`roundInstruction?`) or
fails (`roundFault?`), and only the first is counted (`poll_executed`).

So a host that records its faults finishes every round (`poll_of_record`), one that raises
them ends a round at the fault of its step (`poll_of_raise`), and a halted one tries no
instruction (`poll_of_halted`).

A step does not look at the time of the last flush and does not change it
(`Machine.step_flushed`), so the flush gate is the same before and after the step phase.

A change of hosts that commutes with the outcomes of the phases commutes with the round
(`stepPhase_map`, `flushPhase_map`, `poll_map`).

Whoever holds a host moves its clock and asks for rounds: `moved` is the host after the
first moves of a sequence.
-/
import Chip8.Host.Run
import Chip8.Proofs.Core
import Chip8.Proofs.Stepping

set_option autoImplicit false

namespace Chip8

/-- The latch after a source has answered: a key is pressed, and without one a latch whose
hold is over is emptied. -/
def Latch.answered (l : Latch) (key : Option Rat) (now : Rat) : Latch :=
  match key with
  | some key => l.press key now
  | none => if l.canRelease now then { l with key := none } else l

/-- An empty latch stays as it is without a key. -/
theorem Latch.answered_none {l : Latch} (empty : l.key = none) (now : Rat) :
    l.answered none now = l := by
  simp [answered, canRelease, empty]

namespace Machine

variable (m : Machine) (now shown : Rat)

/-- The fault of a step tried now, if it fails. -/
def fault? : Option Fault :=
  match (m.step now).2 with
  | .error fault => some fault
  | .ok _ => none

variable {m now} in
theorem fault?_of_ok {left : Machine} {ins : Instruction} (ok : m.step now = (left, .ok ins)) :
    m.fault? now = none := by
  rw [fault?, ok]

variable {m now} in
theorem fault?_of_error {left : Machine} {fault : Fault}
    (failed : m.step now = (left, .error fault)) : m.fault? now = some fault := by
  rw [fault?, failed]

variable {m now} in
theorem step_of_fault {fault : Fault} (fails : m.fault? now = some fault) :
    ∃ left, m.step now = (left, .error fault) := by
  rcases tried : m.step now with ⟨left, other | ins⟩
  · rw [fault?_of_error tried] at fails
    exact ⟨left, by rw [Option.some.inj fails]⟩
  · rw [fault?_of_ok tried] at fails
    cases fails

/-! ## The machine a step leaves -/

theorem step_fst_lastStepAt : (m.step now).1.lastStepAt = now := by
  rcases step_fst_cases m now with left | ⟨here, ins, pc, -, left⟩
  · rw [left]
  · rw [left]
    exact execute_lastStepAt _ now here ins

theorem step_fst_lastFlushAt : (m.step now).1.screen.lastFlushAt = m.screen.lastFlushAt := by
  rcases step_fst_cases m now with left | ⟨here, ins, pc, -, left⟩
  · rw [left]
  · rw [left]
    exact execute_lastFlushAt _ now here ins

theorem step_fst_latch : (m.step now).1.latch = m.latch := by
  rcases step_fst_cases m now with left | ⟨here, ins, pc, -, left⟩
  · rw [left]
  · rw [left]
    exact execute_latch _ now here ins

theorem execute_flushed (here : Nat) (ins : Instruction) :
    (m.flushed shown).execute now here ins =
      ((m.execute now here ins).1.flushed shown, (m.execute now here ins).2) := by
  have same : (m.flushed shown).core = m.core := rfl
  obtain ⟨core, answer⟩ := execute_core same now now here fun _ => rfl
  refine Prod.ext (ext_core core ?_ ?_ ?_ ?_ ?_) answer
  · show _ = (m.execute now here ins).1.timer
    rw [execute_nextTimer, execute_nextTimer]
    cases ins <;> rfl
  · show _ = (m.execute now here ins).1.latch
    rw [execute_latch, execute_latch]
    rfl
  · show _ = (m.execute now here ins).1.random
    rw [execute_random, execute_random]
    rfl
  · show _ = (m.execute now here ins).1.lastStepAt
    rw [execute_lastStepAt, execute_lastStepAt]
    rfl
  · rw [execute_lastFlushAt]
    rfl

/-- **A step does not look at the time of the last flush.** -/
theorem step_flushed :
    (m.flushed shown).step now = ((m.step now).1.flushed shown, (m.step now).2) := by
  obtain ⟨left, answer⟩ : ((m.flushed shown).step now).1 = (m.step now).1.flushed shown ∧ _ := by
    apply step_relates fun a a' => a' = a.flushed shown
    · rfl
    · rfl
    · rfl
    · intro here word ins _ _
      exact Prod.mk.inj (execute_flushed { m with lastStepAt := now } now shown here ins)
    · rintro a _ pc rfl
      rfl
  exact Prod.ext left answer

theorem fault?_flushed : (m.flushed shown).fault? now = m.fault? now := by
  rw [fault?, step_flushed, fault?]

end Machine

namespace Host

variable {σ : Type}

/-! ## Input -/

section Input

variable [InputSource σ] (h : Host σ)

/-- The host after the input phase. -/
def answered : Host σ :=
  let answer := InputSource.ask h.input h.clock
  { h with
    input := answer.source
    clock := answer.clock
    machine := { h.machine with latch := h.machine.latch.answered answer.key answer.clock } }

/-- **The input phase never ends a round**: a latch is released only when its gate is open. -/
theorem takeInput_eq : h.takeInput = (h.answered, none) := by
  unfold takeInput answered
  cases InputSource.ask h.input h.clock with
  | mk key source clock =>
    cases key with
    | some key => rfl
    | none =>
      simp only [Latch.answered, Machine.canRelease, Machine.release, Latch.release]
      cases h.machine.latch.canRelease clock <;> rfl

end Input

/-! ## Instructions -/

section Step

variable (h : Host σ)

variable {h} in
theorem stepPhase_of_not_due (closed : h.stepDue = false) : h.stepPhase = (h, none) := by
  simp [stepPhase, closed]

variable {h} in
theorem stepPhase_of_ok (due : h.stepDue = true) {left : Machine} {ins : Instruction}
    (ok : h.machine.step h.clock = (left, .ok ins)) :
    h.stepPhase = ({ h with machine := left }.succeeded h.machine.pc ins, none) := by
  simp [stepPhase, due, attempt, ok]

variable {h} in
theorem stepPhase_of_error (due : h.stepDue = true) {left : Machine} {fault : Fault}
    (failed : h.machine.step h.clock = (left, .error fault)) :
    h.stepPhase = { h with machine := left }.failed h.machine.pc fault := by
  simp [stepPhase, due, attempt, failed]

/-- The three ways of a step phase. -/
theorem stepPhase_cases :
    (h.stepDue = false ∧ h.stepPhase = (h, none)) ∨
      (∃ left ins, h.stepDue = true ∧ h.machine.step h.clock = (left, .ok ins) ∧
        h.stepPhase = ({ h with machine := left }.succeeded h.machine.pc ins, none)) ∨
      (∃ left fault, h.stepDue = true ∧ h.machine.step h.clock = (left, .error fault) ∧
        h.stepPhase = { h with machine := left }.failed h.machine.pc fault) := by
  cases due : h.stepDue with
  | false => exact Or.inl ⟨rfl, stepPhase_of_not_due due⟩
  | true =>
    rcases tried : h.machine.step h.clock with ⟨left, fault | ins⟩
    · exact Or.inr (Or.inr ⟨left, fault, rfl, rfl, stepPhase_of_error due tried⟩)
    · exact Or.inr (Or.inl ⟨left, ins, rfl, rfl, stepPhase_of_ok due tried⟩)

/-- **What its outcomes do to changed hosts alike, a step phase does.** -/
theorem stepPhase_map {τ : Type} {f : Host σ → Host τ} {g : Machine → Machine}
    (due : (f h).stepDue = h.stepDue)
    (tried : (f h).machine.step (f h).clock =
      (g (h.machine.step h.clock).1, (h.machine.step h.clock).2))
    (ok : ∀ left ins, { f h with machine := g left }.succeeded (f h).machine.pc ins =
      f ({ h with machine := left }.succeeded h.machine.pc ins))
    (error : ∀ left fault, { f h with machine := g left }.failed (f h).machine.pc fault =
      (f ({ h with machine := left }.failed h.machine.pc fault).1,
        ({ h with machine := left }.failed h.machine.pc fault).2)) :
    (f h).stepPhase = (f h.stepPhase.1, h.stepPhase.2) := by
  rcases stepPhase_cases h with ⟨closed, phase⟩ | ⟨left, ins, open', done, phase⟩ |
    ⟨left, fault, open', failed, phase⟩
  · rw [phase, stepPhase_of_not_due (due.trans closed)]
  · rw [done] at tried
    rw [phase, stepPhase_of_ok (due.trans open') tried, ok]
  · rw [failed] at tried
    rw [phase, stepPhase_of_error (due.trans open') tried, error]

variable (pc : Rat) (fault : Fault)

/-- What a fault does to a host, its journal apart. -/
theorem failed_fst :
    ∃ journal, (h.failed pc fault).1 = { h with fault := some fault, journal } := by
  simp only [failed]
  split
  · exact ⟨h.journal, rfl⟩
  · exact ⟨_, rfl⟩

theorem failed_snd :
    (h.failed pc fault).2 = if h.settings.mode = .raise then some fault else none := by
  simp only [failed]
  split
  · rename_i mode
    rw [if_pos mode]
  · rename_i mode
    rw [if_neg (by simp [mode])]

theorem stepPhase_machine :
    h.stepPhase.1.machine = if h.stepDue then (h.machine.step h.clock).1 else h.machine := by
  rcases stepPhase_cases h with ⟨closed, phase⟩ | ⟨left, ins, due, ok, phase⟩ |
    ⟨left, fault, due, failed, phase⟩
  · simp [closed, phase]
  · simp [due, ok, phase, succeeded]
  · obtain ⟨journal, left'⟩ := failed_fst { h with machine := left } h.machine.pc fault
    simp [due, failed, phase, left']

theorem stepPhase_fault :
    h.stepPhase.1.fault = if h.stepDue then h.machine.fault? h.clock else h.fault := by
  rcases stepPhase_cases h with ⟨closed, phase⟩ | ⟨left, ins, due, ok, phase⟩ |
    ⟨left, fault, due, failed, phase⟩
  · simp [closed, phase]
  · have unfailed : h.fault = none := by
      simpa [stepDue, halted] using (Bool.and_eq_true_iff.mp due).1
    simp [due, phase, succeeded, Machine.fault?_of_ok ok, unfailed]
  · obtain ⟨journal, left'⟩ := failed_fst { h with machine := left } h.machine.pc fault
    simp [due, phase, left', Machine.fault?_of_error failed]

theorem stepPhase_executed :
    h.stepPhase.1.executed =
      if h.stepDue ∧ h.machine.fault? h.clock = none then h.executed + 1 else h.executed := by
  rcases stepPhase_cases h with ⟨closed, phase⟩ | ⟨left, ins, due, ok, phase⟩ |
    ⟨left, fault, due, failed, phase⟩
  · simp [closed, phase]
  · simp [due, phase, succeeded, Machine.fault?_of_ok ok]
  · obtain ⟨journal, left'⟩ := failed_fst { h with machine := left } h.machine.pc fault
    simp [phase, left', Machine.fault?_of_error failed]

/-- What no step phase touches. -/
theorem stepPhase_frame :
    h.stepPhase.1.settings = h.settings ∧ h.stepPhase.1.clock = h.clock ∧
      h.stepPhase.1.input = h.input ∧ h.stepPhase.1.flushed = h.flushed ∧
      h.stepPhase.1.display = h.display := by
  rcases stepPhase_cases h with ⟨closed, phase⟩ | ⟨left, ins, due, ok, phase⟩ |
    ⟨left, fault, due, failed, phase⟩
  · simp [phase]
  · simp [phase, succeeded]
  · obtain ⟨journal, left'⟩ := failed_fst { h with machine := left } h.machine.pc fault
    simp [phase, left']

/-- A fault escapes from the step phase of a host that raises it, and from no other. -/
theorem stepPhase_snd :
    h.stepPhase.2 =
      if h.stepDue ∧ h.settings.mode = .raise then h.machine.fault? h.clock else none := by
  rcases stepPhase_cases h with ⟨closed, phase⟩ | ⟨left, ins, due, ok, phase⟩ |
    ⟨left, fault, due, failed, phase⟩
  · simp [closed, phase]
  · simp [phase, Machine.fault?_of_ok ok]
  · simp [due, phase, failed_snd, Machine.fault?_of_error failed]

/-- A step phase moves neither the clock nor the flush gate. -/
theorem stepPhase_flushDue : h.stepPhase.1.flushDue = h.flushDue := by
  have same : h.stepPhase.1.machine.screen.lastFlushAt = h.machine.screen.lastFlushAt := by
    rw [stepPhase_machine]
    split
    · exact Machine.step_fst_lastFlushAt _ _
    · rfl
  simp only [flushDue, Machine.canFlush, Screen.canFlush, same, (stepPhase_frame h).2.1]

end Step

/-! ## Frames -/

section Flush

variable (h : Host σ)

theorem flushPhase_machine :
    h.flushPhase.machine = if h.flushDue then h.machine.flushed h.clock else h.machine := by
  unfold flushPhase
  split <;> rfl

theorem flushPhase_flushed :
    h.flushPhase.flushed = if h.flushDue then h.flushed + 1 else h.flushed := by
  unfold flushPhase
  split <;> rfl

theorem flushPhase_display :
    h.flushPhase.display =
      if h.flushDue ∧ h.settings.hasDisplay then h.display.present h.machine.screen.cells
      else h.display := by
  unfold flushPhase
  cases h.flushDue <;> simp [flush]

/-- What a frame does to changed hosts alike, a flush phase does. -/
theorem flushPhase_map {τ : Type} {f : Host σ → Host τ} (due : (f h).flushDue = h.flushDue)
    (shown : (f h).flush = f h.flush) : (f h).flushPhase = f h.flushPhase := by
  unfold flushPhase
  rw [due, shown]
  split <;> rfl

/-- What no flush phase touches. -/
theorem flushPhase_frame :
    h.flushPhase.settings = h.settings ∧ h.flushPhase.clock = h.clock ∧
      h.flushPhase.input = h.input ∧ h.flushPhase.executed = h.executed ∧
      h.flushPhase.fault = h.fault := by
  unfold flushPhase
  split <;> exact ⟨rfl, rfl, rfl, rfl, rfl⟩

end Flush

/-! ## Rounds -/

section Round

variable [InputSource σ] {h : Host σ}

/-- **A host that records its faults finishes every round.** -/
theorem poll_of_record (mode : h.settings.mode = .record) :
    h.poll = (h.answered.stepPhase.1.flushPhase, none) := by
  have quiet : h.answered.stepPhase.2 = none := by
    have kept : h.answered.settings.mode = .record := mode
    simp [stepPhase_snd, kept]
  rcases phase : h.answered.stepPhase with ⟨left, escape⟩
  rw [phase] at quiet
  subst quiet
  simp only [poll, takeInput_eq, phase]

/-- **A host that raises its faults ends a round at the fault of its step.** -/
theorem poll_of_raise (mode : h.settings.mode = .raise) :
    h.poll =
      if h.answered.stepDue then
        match h.answered.machine.fault? h.answered.clock with
        | some fault => (h.answered.stepPhase.1, some (.fault fault))
        | none => (h.answered.stepPhase.1.flushPhase, none)
      else (h.answered.flushPhase, none) := by
  have escape : h.answered.stepPhase.2 =
      if h.answered.stepDue then h.answered.machine.fault? h.answered.clock else none := by
    have kept : h.answered.settings.mode = .raise := mode
    simp [stepPhase_snd, kept]
  cases due : h.answered.stepDue with
  | false => simp [poll, takeInput_eq, stepPhase_of_not_due due]
  | true =>
    rcases phase : h.answered.stepPhase with ⟨left, raised⟩
    rw [due, if_pos rfl, phase] at escape
    simp only [poll, takeInput_eq, phase, if_true, ← escape]
    cases raised <;> rfl

/-- A round is over after its step phase, if a fault escapes there, and otherwise after its
flush phase. -/
theorem poll_fst_cases :
    h.poll.1 = h.answered.stepPhase.1 ∨ h.poll.1 = h.answered.stepPhase.1.flushPhase := by
  simp only [poll, takeInput_eq]
  rcases h.answered.stepPhase with ⟨left, fault | none⟩
  · exact Or.inr rfl
  · exact Or.inl rfl

/-- A round keeps the settings. -/
theorem poll_settings : h.poll.1.settings = h.settings := by
  have stepped : h.answered.stepPhase.1.settings = h.settings := (stepPhase_frame _).1
  rcases h.poll_fst_cases with left | left
  · rw [left, stepped]
  · rw [left, (flushPhase_frame _).1, stepped]

/-- Only the source moves the clock in a round. -/
theorem poll_clock : h.poll.1.clock = h.answered.clock := by
  have stepped : h.answered.stepPhase.1.clock = h.answered.clock := (stepPhase_frame _).2.1
  rcases h.poll_fst_cases with left | left
  · rw [left, stepped]
  · rw [left, (flushPhase_frame _).2.1, stepped]

/-- A round asks the source once. -/
theorem poll_input : h.poll.1.input = h.answered.input := by
  have stepped : h.answered.stepPhase.1.input = h.answered.input := (stepPhase_frame _).2.2.1
  rcases h.poll_fst_cases with left | left
  · rw [left, stepped]
  · rw [left, (flushPhase_frame _).2.2.1, stepped]

/-- A round leaves the machine as its step does, if it makes one, but for the time of a
frame. -/
theorem poll_machine :
    ∃ shown, h.poll.1.machine =
      (if h.answered.stepDue then (h.answered.machine.step h.answered.clock).1
        else h.answered.machine).flushed shown := by
  rw [← stepPhase_machine]
  rcases h.poll_fst_cases with left | left
  · exact ⟨h.answered.stepPhase.1.machine.screen.lastFlushAt, congrArg machine left⟩
  · rw [left, flushPhase_machine]
    split
    · exact ⟨_, rfl⟩
    · exact ⟨h.answered.stepPhase.1.machine.screen.lastFlushAt, rfl⟩

/-- The latch is left as the input phase leaves it. -/
theorem poll_latch : h.poll.1.machine.latch = h.answered.machine.latch := by
  obtain ⟨shown, machine⟩ := h.poll_machine
  rw [machine]
  split
  · exact Machine.step_fst_latch _ _
  · rfl

/-- The fault that the next round ends with, if it does. -/
def roundFault? (h : Host σ) : Option Fault :=
  if h.answered.stepDue then h.answered.machine.fault? h.answered.clock else none

theorem roundFault?_eq_some_iff {fault : Fault} :
    h.roundFault? = some fault ↔
      h.answered.stepDue = true ∧ h.answered.machine.fault? h.answered.clock = some fault := by
  unfold roundFault?
  cases h.answered.stepDue <;> simp

/-- The instruction that the next round executes, if it executes one. -/
def roundInstruction? (h : Host σ) : Option Instruction :=
  if h.answered.stepDue then (h.answered.machine.step h.answered.clock).2.toOption else none

theorem roundInstruction?_eq_some_iff {ins : Instruction} :
    h.roundInstruction? = some ins ↔ h.answered.stepDue = true ∧
      ∃ left, h.answered.machine.step h.answered.clock = (left, .ok ins) := by
  unfold roundInstruction?
  rcases h.answered.machine.step h.answered.clock with ⟨left, fault | found⟩ <;>
    cases h.answered.stepDue <;> simp [Except.toOption]

/-- The machine that an executed instruction leaves is that after the round. -/
theorem poll_machine_of_instruction {ins : Instruction} (executes : h.roundInstruction? = some ins) :
    ∃ left shown, h.answered.machine.step h.answered.clock = (left, .ok ins) ∧
      h.poll.1.machine = left.flushed shown := by
  obtain ⟨due, left, ok⟩ := roundInstruction?_eq_some_iff.mp executes
  obtain ⟨shown, machine⟩ := h.poll_machine
  rw [if_pos due, ok] at machine
  exact ⟨left, shown, ok, machine⟩

/-- **What escapes from a round**: its fault, if the host raises it. -/
theorem poll_snd (h : Host σ) :
    h.poll.2 = if h.settings.mode = .raise then h.roundFault?.map Escape.fault else none := by
  have escape : h.poll.2 = h.answered.stepPhase.2.map Escape.fault := by
    simp only [poll, takeInput_eq]
    rcases h.answered.stepPhase with ⟨left, _ | fault⟩ <;> rfl
  have kept : h.answered.settings.mode = h.settings.mode := rfl
  rw [escape, stepPhase_snd, roundFault?, kept]
  by_cases mode : h.settings.mode = .raise
  · simp only [mode, and_true, if_true]
  · simp only [mode, and_false, if_false, Option.map_none]

/-- The round of a halted host tries no instruction. -/
theorem poll_of_halted (halted : h.halted = true) : h.poll = (h.answered.flushPhase, none) := by
  have closed : h.answered.stepDue = false := by
    have kept : h.answered.halted = true := halted
    simp [stepDue, kept]
  simp only [poll, takeInput_eq, stepPhase_of_not_due closed]

/-- **What its phases do to changed hosts alike, a round does**: the one host has come to the
change of the other when its source has answered, and the phases after that commute with the
change. -/
theorem poll_map {τ : Type} [InputSource τ] {f : Host σ → Host τ} {g : Host τ}
    (asked : g.answered = f h.answered)
    (stepped : (f h.answered).stepPhase = (f h.answered.stepPhase.1, h.answered.stepPhase.2))
    (shown : (f h.answered.stepPhase.1).flushPhase = f h.answered.stepPhase.1.flushPhase) :
    g.poll = (f h.poll.1, h.poll.2) := by
  simp only [poll, takeInput_eq, asked, stepped]
  rcases phase : h.answered.stepPhase with ⟨left, _ | fault⟩
  · rw [phase] at shown
    simp only [shown]
  · rfl

/-- A round counts the instruction that it executes. -/
theorem poll_executed (h : Host σ) :
    h.poll.1.executed = h.executed + h.roundInstruction?.toList.length := by
  have phase : h.answered.stepPhase.1.executed =
      h.executed + h.roundInstruction?.toList.length := by
    have before : h.answered.executed = h.executed := rfl
    rw [stepPhase_executed, before, roundInstruction?, Machine.fault?]
    rcases h.answered.machine.step h.answered.clock with ⟨left, fault | ins⟩ <;>
      cases h.answered.stepDue <;> simp [Except.toOption]
  rcases h.poll_fst_cases with left | left
  · rw [left, phase]
  · rw [left, (flushPhase_frame _).2.2.2.1, phase]

/-- A host without a fault has that of the round after it. -/
theorem poll_fault (unfailed : h.fault = none) : h.poll.1.fault = h.roundFault? := by
  have phase : h.answered.stepPhase.1.fault = h.roundFault? := by
    have before : h.answered.fault = none := unfailed
    rw [stepPhase_fault, before, roundFault?]
  rcases h.poll_fst_cases with left | left
  · rw [left, phase]
  · rw [left, (flushPhase_frame _).2.2.2.2, phase]

end Round

/-- A program is loaded into the machine, and at most told in the journal. -/
theorem loadRom_eq (h : Host σ) (image : List Rat) :
    ∃ journal, h.loadRom image =
      ({ h with machine := (h.machine.loadRom image).1, journal },
        (h.machine.loadRom image).2) := by
  rcases loaded : h.machine.loadRom image with ⟨machine, _ | fault⟩
  · simp only [loadRom, loaded]
    exact ⟨_, rfl⟩
  · simp only [loadRom, loaded]
    exact ⟨h.journal, rfl⟩

/-! ## Moves -/

/-- What whoever holds a host may do: set the clock, let time pass, or ask for a round. -/
inductive Move where
  | setClock (time : Rat)
  | advance (ms : Rat)
  | poll

section Moves

variable [InputSource σ] (h : Host σ)

/-- The host after a move, whether or not an error has escaped from it. -/
def move : Move → Host σ
  | .setClock time => { h with clock := time }
  | .advance ms => h.advance ms
  | .poll => h.poll.1

/-- The host after the first of a sequence of moves. -/
def moved (moves : Nat → Move) : Nat → Host σ
  | 0 => h
  | n + 1 => (moved moves n).move (moves n)

theorem move_settings (move : Move) : (h.move move).settings = h.settings := by
  cases move with
  | setClock time | advance ms => rfl
  | poll => exact poll_settings

theorem moved_settings (moves : Nat → Move) (n : Nat) :
    (h.moved moves n).settings = h.settings := by
  induction n with
  | zero => rfl
  | succ n ih => rw [moved, move_settings, ih]

end Moves

end Host

end Chip8
