/-
# Chip8.Proofs.FaultModes -- to raise a fault or to record it

Two hosts that differ only in what they do with a fault are moved alike.  Up to the first
fault they are the same but for their mode (`poll_inMode`).  In the round of the fault the
one ends where the step phase does and the other goes on to the flush phase, so they differ
by a frame at most (`FailsAlike`).  From there on both are halted: no round tries an
instruction, and the frames shown are all in which they can differ (`HaltedAlike`).

`modes_agree` says this of every sequence of moves.
-/
import Chip8.Proofs.Halting

set_option autoImplicit false

namespace Chip8

namespace Host

variable {σ : Type}

/-- The host with another answer to faults. -/
def inMode (h : Host σ) (mode : FaultMode) : Host σ :=
  { h with settings := { h.settings with mode } }

/-! ## One round -/

section Phases

variable (h : Host σ) (mode : FaultMode)

theorem flushPhase_inMode : (h.inMode mode).flushPhase = h.flushPhase.inMode mode :=
  flushPhase_map h (f := fun g => g.inMode mode) rfl rfl

/-- Without a fault the step phase is the same in every mode. -/
theorem stepPhase_inMode (clean : h.stepDue = true → h.machine.fault? h.clock = none) :
    (h.inMode mode).stepPhase = (h.stepPhase.1.inMode mode, none) := by
  rcases stepPhase_cases h with ⟨closed, phase⟩ | ⟨left, ins, due, ok, phase⟩ |
    ⟨left, fault, due, failed, phase⟩
  · rw [phase, stepPhase_of_not_due (h := h.inMode mode) closed]
  · rw [phase, stepPhase_of_ok (h := h.inMode mode) due ok]
    rfl
  · rw [Machine.fault?_of_error failed] at clean
    cases clean due

/-- With a fault it is the same in every mode but for the journal. -/
theorem stepPhase_inMode_fst :
    ∃ journal, (h.inMode mode).stepPhase.1 = { h.stepPhase.1.inMode mode with journal } := by
  rcases stepPhase_cases h with ⟨closed, phase⟩ | ⟨left, ins, due, ok, phase⟩ |
    ⟨left, fault, due, failed, phase⟩
  · rw [phase, stepPhase_of_not_due (h := h.inMode mode) closed]
    exact ⟨h.journal, rfl⟩
  · rw [phase, stepPhase_of_ok (h := h.inMode mode) due ok]
    exact ⟨_, rfl⟩
  · rw [phase, stepPhase_of_error (h := h.inMode mode) due failed]
    obtain ⟨journal, here⟩ := failed_fst { h with machine := left } h.machine.pc fault
    obtain ⟨journal', there⟩ :=
      failed_fst { h.inMode mode with machine := left } h.machine.pc fault
    have pc : (h.inMode mode).machine.pc = h.machine.pc := rfl
    rw [pc, here, there]
    exact ⟨journal', rfl⟩

end Phases

section Rounds

variable [InputSource σ] {h : Host σ}

/-- **Without a fault a round is the same in every mode.** -/
theorem poll_inMode (clean : h.roundFault? = none) (mode : FaultMode) :
    (h.inMode mode).poll = (h.poll.1.inMode mode, none) := by
  have quiet : h.answered.stepDue = true →
      h.answered.machine.fault? h.answered.clock = none := by
    intro due
    rw [roundFault?, if_pos due] at clean
    exact clean
  have escape : h.answered.stepPhase.2 = none := by
    rw [stepPhase_snd]
    split
    · exact quiet (by assumption : _ ∧ _).1
    · rfl
  have stepped : (h.answered.inMode mode).stepPhase =
      (h.answered.stepPhase.1.inMode mode, h.answered.stepPhase.2) := by
    rw [stepPhase_inMode _ mode quiet, escape]
  have round : (h.inMode mode).poll = (h.poll.1.inMode mode, h.poll.2) :=
    poll_map (f := fun g => g.inMode mode) rfl stepped (flushPhase_inMode _ mode)
  rw [round, poll_snd, clean, Option.map_none, ite_self]

/-- What is left by a round with a fault, in a host that records it and in one that raises
it: the first has shown one more frame if it was due. -/
structure FailsAlike (fault : Fault) (recorded raised : Host σ) : Prop where
  faults : recorded.fault = some fault ∧ raised.fault = some fault
  clock : recorded.clock = raised.clock
  input : recorded.input = raised.input
  executed : recorded.executed = raised.executed
  machine :
    recorded.machine =
      if raised.flushDue then raised.machine.flushed raised.clock else raised.machine
  flushed : recorded.flushed = if raised.flushDue then raised.flushed + 1 else raised.flushed
  display :
    recorded.display =
      if raised.flushDue ∧ raised.settings.hasDisplay then
        raised.display.present raised.machine.screen.cells
      else raised.display

/-- **The round of the fault.** -/
theorem poll_of_roundFault (mode : h.settings.mode = .record) {fault : Fault}
    (fails : h.roundFault? = some fault) :
    (h.inMode .raise).poll.2 = some (.fault fault) ∧
      FailsAlike fault h.poll.1 (h.inMode .raise).poll.1 := by
  have raising : (h.inMode .raise).roundFault? = some fault := fails
  obtain ⟨due, failed⟩ := roundFault?_eq_some_iff.mp raising
  have raises : (h.inMode .raise).poll =
      ((h.answered.inMode .raise).stepPhase.1, some (.fault fault)) := by
    rw [poll_of_raise (h := h.inMode .raise) rfl, if_pos due, failed]
    rfl
  have stepped : h.answered.stepPhase.1.fault = some fault := by
    rw [stepPhase_fault]
    exact (if_pos due).trans failed
  obtain ⟨journal, left⟩ := stepPhase_inMode_fst h.answered .raise
  obtain ⟨-, clock, input, executed, kept⟩ := flushPhase_frame h.answered.stepPhase.1
  rw [raises, poll_of_record mode, left]
  exact ⟨rfl, ⟨kept.trans stepped, stepped⟩, clock, input, executed, flushPhase_machine _,
    flushPhase_flushed _, flushPhase_display _⟩

/-- **A round raises a fault in the one mode exactly when it records it in the other.** -/
theorem poll_raise_of_record (mode : h.settings.mode = .record) (unfailed : h.fault = none) :
    (h.inMode .raise).poll.2 = h.poll.1.fault.map Escape.fault ∧
      ∀ fault, h.poll.1.fault = some fault →
        FailsAlike fault h.poll.1 (h.inMode .raise).poll.1 := by
  rw [poll_fault unfailed]
  cases round : h.roundFault? with
  | none =>
    refine ⟨by rw [poll_inMode round]; rfl, ?_⟩
    intro fault impossible
    cases impossible
  | some fault =>
    obtain ⟨escape, fails⟩ := poll_of_roundFault mode round
    refine ⟨escape, ?_⟩
    rintro _ ⟨⟩
    exact fails

end Rounds

/-! ## Halted hosts -/

/-- Two hosts halted by one fault that differ at most in the frames they have shown, in
their journals and in their settings. -/
structure HaltedAlike (fault : Fault) (recorded raised : Host σ) : Prop where
  faults : recorded.fault = some fault ∧ raised.fault = some fault
  clock : recorded.clock = raised.clock
  input : recorded.input = raised.input
  executed : recorded.executed = raised.executed
  machine : ∃ shown, recorded.machine = raised.machine.flushed shown

theorem FailsAlike.haltedAlike {fault : Fault} {recorded raised : Host σ}
    (alike : FailsAlike fault recorded raised) : HaltedAlike fault recorded raised where
  faults := alike.faults
  clock := alike.clock
  input := alike.input
  executed := alike.executed
  machine := by
    rw [alike.machine]
    split
    · exact ⟨raised.clock, rfl⟩
    · exact ⟨raised.machine.screen.lastFlushAt, rfl⟩

section Halted

variable [InputSource σ] {h recorded raised : Host σ} {fault : Fault}

/-- A halted host executes nothing more: a move changes its latch, its clock, its input and
what it has shown. -/
theorem move_of_halted (halted : h.fault = some fault) (move : Move) :
    (h.move move).fault = some fault ∧ (h.move move).executed = h.executed ∧
      h.machine.SameProgram (h.move move).machine := by
  have frozen := frozen_move (h := h) (by rw [Host.halted, halted]; rfl) move
  exact ⟨frozen.fault.trans halted, frozen.executed, frozen.program⟩

theorem moved_of_halted {moves : Nat → Move} {n k : Nat}
    (halted : (h.moved moves n).fault = some fault) (later : n ≤ k) :
    (h.moved moves k).fault = some fault ∧
      (h.moved moves k).executed = (h.moved moves n).executed ∧
      (h.moved moves n).machine.SameProgram (h.moved moves k).machine := by
  induction later with
  | refl => exact ⟨halted, rfl, Machine.sameProgram_refl _⟩
  | @step k _ ih =>
    obtain ⟨kept, executed, program⟩ := ih
    obtain ⟨kept', executed', program'⟩ := move_of_halted kept (moves k)
    exact ⟨kept', executed'.trans executed, program.trans program'⟩

/-- Hosts that are halted alike stay so, since they are asked alike and each shows its
screen when it likes. -/
theorem HaltedAlike.move (alike : HaltedAlike fault recorded raised) (move : Move) :
    HaltedAlike fault (recorded.move move) (raised.move move) := by
  obtain ⟨⟨recordedFault, raisedFault⟩, clock, input, executed, shown, machine⟩ := alike
  cases move with
  | setClock time => exact ⟨⟨recordedFault, raisedFault⟩, rfl, input, executed, shown, machine⟩
  | advance ms =>
    refine ⟨⟨recordedFault, raisedFault⟩, ?_, input, executed, shown, machine⟩
    rw [Host.move, Host.move, advance, advance, clock]
  | poll =>
    have recordedRound := poll_of_halted (h := recorded) (by rw [halted, recordedFault]; rfl)
    have raisedRound := poll_of_halted (h := raised) (by rw [halted, raisedFault]; rfl)
    obtain ⟨-, recordedClock, recordedInput, recordedCount, recordedKept⟩ :=
      flushPhase_frame recorded.answered
    obtain ⟨-, raisedClock, raisedInput, raisedCount, raisedKept⟩ :=
      flushPhase_frame raised.answered
    have asked : InputSource.ask recorded.input recorded.clock =
        InputSource.ask raised.input raised.clock := by rw [input, clock]
    have answeredClock : recorded.answered.clock = raised.answered.clock := by
      simp only [answered, asked]
    have answeredInput : recorded.answered.input = raised.answered.input := by
      simp only [answered, asked]
    have answeredMachine : recorded.answered.machine = raised.answered.machine.flushed shown := by
      simp only [answered, asked, machine]
      rfl
    rw [Host.move, Host.move, recordedRound, raisedRound]
    refine ⟨⟨recordedKept.trans recordedFault, raisedKept.trans raisedFault⟩, ?_, ?_, ?_, ?_⟩
    · rw [recordedClock, raisedClock, answeredClock]
    · rw [recordedInput, raisedInput, answeredInput]
    · rw [recordedCount, raisedCount]
      exact executed
    · rw [flushPhase_machine, flushPhase_machine, answeredMachine]
      split <;> split
      · exact ⟨_, rfl⟩
      · exact ⟨_, rfl⟩
      · exact ⟨_, rfl⟩
      · exact ⟨_, rfl⟩

end Halted

/-! ## Agreement -/

section Agreement

variable [InputSource σ] {recorded raised : Host σ}

/-- Two hosts that have been moved alike: the same but for their mode, or halted alike. -/
inductive Agree (recorded raised : Host σ) : Prop where
  | unfailed (clean : recorded.fault = none) (same : raised = recorded.inMode .raise) :
    Agree recorded raised
  | halted (fault : Fault) (alike : HaltedAlike fault recorded raised) : Agree recorded raised

omit [InputSource σ] in
theorem Agree.eq_inMode (agree : Agree recorded raised) (clean : recorded.fault = none) :
    raised = recorded.inMode .raise := by
  cases agree with
  | unfailed _ same => exact same
  | halted fault alike =>
    rw [alike.faults.1] at clean
    cases clean

omit [InputSource σ] in
theorem Agree.haltedAlike (agree : Agree recorded raised) {fault : Fault}
    (halted : recorded.fault = some fault) : HaltedAlike fault recorded raised := by
  cases agree with
  | unfailed clean _ =>
    rw [clean] at halted
    cases halted
  | halted other alike =>
    obtain rfl := Option.some.inj (alike.faults.1.symm.trans halted)
    exact alike

/-- **A move keeps the agreement.** -/
theorem Agree.move (agree : Agree recorded raised) (mode : recorded.settings.mode = .record)
    (move : Move) : Agree (recorded.move move) (raised.move move) := by
  cases agree with
  | halted fault alike => exact .halted fault (alike.move move)
  | unfailed clean same =>
    subst same
    cases move with
    | setClock time | advance ms => exact .unfailed clean rfl
    | poll =>
      cases round : recorded.roundFault? with
      | none =>
        refine .unfailed ((poll_fault clean).trans round) ?_
        rw [Host.move, poll_inMode round]
        rfl
      | some fault => exact .halted fault (poll_of_roundFault mode round).2.haltedAlike

theorem agree_moved {h : Host σ} (unfailed : h.fault = none) (moves : Nat → Move) (n : Nat) :
    Agree ((h.inMode .record).moved moves n) ((h.inMode .raise).moved moves n) := by
  induction n with
  | zero => exact .unfailed unfailed rfl
  | succ n ih =>
    refine ih.move ?_ (moves n)
    rw [moved_settings]
    rfl

/-- **The modes agree on the machine.**  Two hosts that differ only in their mode are moved
alike.  Up to the first fault they are the same but for the mode.  A round then raises a
fault in the one exactly when the other records it, and leaves the two alike but for one
frame, shown by the recording host if it was due.  From there on no error escapes, both stay
halted alike, and whatever follows executes nothing in either. -/
theorem modes_agree (h : Host σ) (unfailed : h.fault = none) (moves : Nat → Move) (n : Nat) :
    let recorded := (h.inMode .record).moved moves
    let raised := (h.inMode .raise).moved moves
    (recorded n).poll.2 = none ∧
    ((recorded n).fault = none →
      raised n = (recorded n).inMode .raise ∧
        (raised n).poll.2 = (recorded n).poll.1.fault.map Escape.fault ∧
        ∀ fault, (recorded n).poll.1.fault = some fault →
          FailsAlike fault (recorded n).poll.1 (raised n).poll.1) ∧
    (∀ fault, (recorded n).fault = some fault →
      HaltedAlike fault (recorded n) (raised n) ∧ (raised n).poll.2 = none ∧
        ∀ k, n ≤ k →
          HaltedAlike fault (recorded k) (raised k) ∧
            (recorded k).executed = (recorded n).executed ∧
            (recorded n).machine.SameProgram (recorded k).machine ∧
            (raised k).executed = (raised n).executed ∧
            (raised n).machine.SameProgram (raised k).machine) := by
  intro recorded raised
  have mode : ∀ k, (recorded k).settings.mode = .record := by
    intro k
    rw [moved_settings]
    rfl
  have agree : ∀ k, Agree (recorded k) (raised k) := agree_moved unfailed moves
  refine ⟨by rw [poll_of_record (mode n)], ?_, ?_⟩
  · intro clean
    have same := (agree n).eq_inMode clean
    rw [same]
    exact ⟨rfl, poll_raise_of_record (mode n) clean⟩
  · intro fault halted
    have alike := (agree n).haltedAlike halted
    refine ⟨alike, by rw [poll_of_halted (by rw [Host.halted, alike.faults.2]; rfl)], ?_⟩
    intro k later
    obtain ⟨stays, executed, program⟩ := moved_of_halted halted later
    obtain ⟨-, executed', program'⟩ := moved_of_halted alike.faults.2 later
    exact ⟨(agree k).haltedAlike stays, executed, program, executed', program'⟩

/-- Eleven milliseconds pass, and rounds follow. -/
def waitThenPoll : Nat → Move
  | 0 => .advance 11
  | _ + 1 => .poll

/-- In the first round a step and a frame are due.  The step fails, and only the host that
records the fault shows the frame. -/
theorem modes_agree_atZero :
    ((atZero.inMode .raise).moved waitThenPoll 1).poll.2 =
        some (.fault (.invalidInstruction 0x200 0)) ∧
      FailsAlike (.invalidInstruction 0x200 0) ((atZero.inMode .record).moved waitThenPoll 2)
        ((atZero.inMode .raise).moved waitThenPoll 2) ∧
      ((atZero.inMode .record).moved waitThenPoll 2).flushed = 1 ∧
      ((atZero.inMode .raise).moved waitThenPoll 2).flushed = 0 := by
  have fails : ((atZero.inMode .record).moved waitThenPoll 1).poll.1.fault =
      some (.invalidInstruction 0x200 0) := by
    decide +kernel
  obtain ⟨-, before, -⟩ := modes_agree atZero rfl waitThenPoll 1
  obtain ⟨-, escape, alike⟩ := before rfl
  rw [fails] at escape
  exact ⟨escape, alike _ fails, by decide +kernel, by decide +kernel⟩

end Agreement

end Host

end Chip8
