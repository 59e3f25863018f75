/-
# Chip8.Proofs.BusyRounds -- rounds at a reading that has had one

A round shuts the gates that it finds open: at the same reading of the clock there is no key
to release, no instruction to try and no frame to show (`poll_settled`).  A source may still
give a key there, but without one another round changes nothing (`poll_of_settled`).

To leave such rounds out of a run is to leave their answers out: what a run comes to, its
source apart, depends on the answers of the source (`outcome_pollsAt`), and an answer without
a key at the time of the one before makes no difference (`rounds_withoutRepeats`).
`repeated_rounds_change_nothing` says so of runs.

It takes a latch that holds its keys for some time.  And a key is not the same in the first
round at a reading as in the second, after an instruction that waits for it
(`repeated_rounds_matter`).
-/
import Chip8.Proofs.GateSpacing
import Chip8.Proofs.PacedRuns

set_option autoImplicit false

namespace Chip8

/-! ## Gates at the same reading -/

/-- No time passes between a reading and itself. -/
theorem Binary64.any_sub?_self {opens : Rat → Bool} (closed : opens 0 = false) (now : Rat) :
    (sub? now now).any opens = false := by
  have zero : round 0 = 0 := rfl
  cases beyond : beyondRange now with
  | true => simp [sub?, beyond]
  | false => simp [sub?, beyond, zero, closed]

namespace Latch

variable {l : Latch} {key : Option Rat} {now : Rat}

theorem answered_holdTime : (l.answered key now).holdTime = l.holdTime := by
  cases key with
  | some key => rfl
  | none =>
    rw [answered]
    split <;> rfl

/-- A key that is not released stays. -/
theorem answered_none_of_held (held : l.canRelease now = false) : l.answered none now = l := by
  simp [answered, held]

/-- After an answer there is nothing to release at that reading. -/
theorem canRelease_answered (positive : 0 < l.holdTime) :
    (l.answered key now).canRelease now = false := by
  cases key with
  | some key =>
    show (true && (Binary64.sub? now now).any (l.holdTime ≤ ·)) = false
    rw [Bool.true_and]
    apply Binary64.any_sub?_self
    simpa using positive
  | none =>
    cases released : l.canRelease now with
    | false => rw [answered_none_of_held released, released]
    | true =>
      have emptied : l.answered none now = { l with key := none } := if_pos released
      rw [emptied]
      rfl

end Latch

namespace Host

/-! ## Settled hosts -/

/-- No gate of the host is open at the reading of its clock. -/
structure Settled {σ : Type} (h : Host σ) : Prop where
  latch : h.machine.latch.canRelease h.clock = false
  step : h.stepDue = false
  flush : h.flushDue = false

section Round

variable {σ : Type} [InputSource σ] {h : Host σ}

theorem halted_poll (halted : h.halted = true) : h.poll.1.halted = true := by
  rw [poll_of_halted halted]
  show h.answered.flushPhase.fault.isSome = true
  rw [(flushPhase_frame _).2.2.2.2]
  exact halted

theorem poll_holdTime : h.poll.1.machine.latch.holdTime = h.machine.latch.holdTime := by
  rw [poll_latch]
  exact Latch.answered_holdTime

/-- A round without an error shows the frame that is due. -/
theorem showsFrame_of_quiet (quiet : h.poll.2 = none) :
    h.showsFrame = h.answered.flushDue := by
  rcases phase : h.answered.stepPhase with ⟨left, _ | fault⟩
  · simp [showsFrame, phase]
  · simp [poll, takeInput_eq, phase] at quiet

/-- **A round leaves no gate open**, unless an error has escaped from it. -/
theorem poll_settled (positive : 0 < h.machine.latch.holdTime) (quiet : h.poll.2 = none) :
    h.poll.1.Settled where
  latch := by
    rw [poll_latch, poll_clock]
    exact Latch.canRelease_answered positive
  step := by
    rw [stepDue, poll_clock, Machine.canStep]
    cases due : h.answered.stepDue with
    | true =>
      have tried : h.poll.1.machine.lastStepAt = h.answered.clock := stepGate.passed h due
      rw [tried, Binary64.any_sub?_self (by decide), Bool.and_false]
    | false =>
      have untried : h.poll.1.machine.lastStepAt = h.answered.machine.lastStepAt :=
        stepGate.kept h due
      cases halted : h.halted with
      | true => simp [halted_poll halted]
      | false =>
        have running : h.answered.halted = false := halted
        rw [stepDue, running, Machine.canStep] at due
        rw [untried, show Option.any _ _ = false from due, Bool.and_false]
  flush := by
    rw [flushDue, poll_clock, Machine.canFlush, Screen.canFlush]
    have due := showsFrame_of_quiet quiet
    cases shows : h.showsFrame with
    | true =>
      have shown : h.poll.1.machine.screen.lastFlushAt = h.answered.clock :=
        frameGate.passed h shows
      rw [shown]
      exact Binary64.any_sub?_self (by decide) _
    | false =>
      have unshown : h.poll.1.machine.screen.lastFlushAt = h.machine.screen.lastFlushAt :=
        frameGate.kept h shows
      rw [shows] at due
      rw [unshown]
      exact due.symm

/-- **A keyless round of a settled host changes nothing** at the reading it is settled at. -/
theorem poll_of_settled (settled : h.Settled) {now : Rat}
    (keyless : ({ h with clock := now } : Host σ).keyGiven? = none)
    (same : ({ h with clock := now } : Host σ).answerTime = h.clock) :
    ({ h with clock := now } : Host σ).poll =
      (h.withInput (InputSource.ask h.input now).source, none) := by
  have key : (InputSource.ask h.input now).key = none := keyless
  have time : (InputSource.ask h.input now).clock = h.clock := same
  have unchanged : ({ h with clock := now } : Host σ).answered =
      h.withInput (InputSource.ask h.input now).source := by
    simp only [answered, key, time, Latch.answered_none_of_held settled.latch]
    rfl
  have idle : h.flushPhase = h := by simp [flushPhase, settled.flush]
  simp only [poll, takeInput_eq, unchanged, stepPhase_withInput, stepPhase_of_not_due settled.step,
    flushPhase_withInput, idle]

end Round

/-! ## Runs and their answers -/

/-- What a source says in one round: the reading it comes to, and a key or none. -/
structure Answer where
  time : Rat
  key : Option Rat
deriving DecidableEq

/-- The answers without those that bring no key and come at the time of the one before. -/
def withoutRepeats (before : Option Rat) : List Answer → List Answer
  | [] => []
  | a :: rest =>
    if a.key = none ∧ before = some a.time then withoutRepeats before rest
    else a :: withoutRepeats (some a.time) rest

section Runs

variable {σ : Type}

/-- What a run comes to, its source apart. -/
def outcome (run : Host σ × Option Escape) : Host Unit × Option Escape :=
  (run.1.withInput (), run.2)

/-- A host that has answers ready. -/
def prepared (h : Host σ) (answers : List Answer) : Host AnswerList :=
  h.withInput { answers := answers.map (·.key), tick := none }

variable [InputSource σ]

/-- The answer in the next round of a host. -/
def answer (h : Host σ) : Answer := { time := h.answerTime, key := h.keyGiven? }

/-- Rounds for which the clock is set, up to the first from which an error escapes. -/
def pollsAt (h : Host σ) : List Rat → Host σ × Option Escape
  | [] => (h, none)
  | now :: rest =>
    followedBy ({ h with clock := now } : Host σ).poll fun left => left.pollsAt rest

/-- The answers in such rounds. -/
def answersAt (h : Host σ) : List Rat → List Answer
  | [] => []
  | now :: rest =>
    let next : Host σ := { h with clock := now }
    next.answer :: next.poll.1.answersAt rest

end Runs

/-- The next round of a host that is given this answer. -/
def roundWith (a : Answer) (h : Host Unit) : Host Unit × Option Escape :=
  outcome ({ h.prepared [a] with clock := a.time } : Host AnswerList).poll

/-- The rounds of a host that is given these answers. -/
def rounds : List Answer → Host Unit → Host Unit × Option Escape
  | [], h => (h, none)
  | a :: rest, h => followedBy (h.roundWith a) (rounds rest)

section Outcome

variable {σ : Type} [InputSource σ]

theorem outcome_poll (h : Host σ) : outcome h.poll = (h.withInput ()).roundWith h.answer := by
  have same : ({ (h.withInput ()).prepared [h.answer] with clock := h.answer.time } :
      Host AnswerList).answered = h.answered.withInput { answers := [], tick := none } := rfl
  rw [roundWith, poll_of_answered same]
  rfl

/-- **What a run comes to depends on the answers.** -/
theorem outcome_pollsAt (times : List Rat) (h : Host σ) :
    outcome (h.pollsAt times) = rounds (h.answersAt times) (h.withInput ()) := by
  induction times generalizing h with
  | nil => rfl
  | cons now rest ih =>
    let next : Host σ := { h with clock := now }
    have round : (h.withInput ()).roundWith next.answer = outcome next.poll :=
      (outcome_poll next).symm
    show outcome (followedBy next.poll fun left => left.pollsAt rest) =
      followedBy ((h.withInput ()).roundWith next.answer) (rounds (next.poll.1.answersAt rest))
    rw [round]
    rcases next.poll with ⟨left, _ | escape⟩
    · exact ih left
    · rfl

/-- Answers that are ready are given. -/
theorem answersAt_of_ready (answers : List Answer) {h : Host AnswerList}
    (ready : h.input = { answers := answers.map (·.key), tick := none }) :
    h.answersAt (answers.map (·.time)) = answers := by
  induction answers generalizing h with
  | nil => rfl
  | cons a rest ih =>
    let next : Host AnswerList := { h with clock := a.time }
    have given : InputSource.ask next.input next.clock =
        { key := a.key
          source := { answers := rest.map (·.key), tick := none }
          clock := a.time } := by
      rw [show next.input = _ from ready]
      rfl
    have answer : next.answer = a := by rw [Host.answer, answerTime, keyGiven?, given]
    have others : next.poll.1.answersAt (rest.map (·.time)) = rest := by
      apply ih
      rw [poll_input, answered, given]
    show next.answer :: next.poll.1.answersAt (rest.map (·.time)) = a :: rest
    rw [answer, others]

end Outcome

section Repeats

variable {a : Answer} {h left : Host Unit}

theorem roundWith_settled (positive : 0 < h.machine.latch.holdTime)
    (round : h.roundWith a = (left, none)) :
    left.clock = a.time ∧ 0 < left.machine.latch.holdTime ∧ left.Settled := by
  let next : Host AnswerList := { h.prepared [a] with clock := a.time }
  obtain ⟨rfl, quiet⟩ : next.poll.1.withInput () = left ∧ next.poll.2 = none := Prod.mk.inj round
  have settled : next.poll.1.Settled := poll_settled positive quiet
  have same : next.poll.1.clock = a.time := poll_clock
  have kept : next.poll.1.machine.latch.holdTime = h.machine.latch.holdTime := poll_holdTime
  exact ⟨same, kept.symm ▸ positive, settled.latch, settled.step, settled.flush⟩

/-- An answer without a key changes nothing at the reading that a host is settled at. -/
theorem roundWith_of_settled (settled : h.Settled) (same : h.clock = a.time)
    (keyless : a.key = none) : h.roundWith a = (h, none) := by
  have closed : (h.prepared [a]).Settled := ⟨settled.latch, settled.step, settled.flush⟩
  rw [roundWith, poll_of_settled closed keyless same.symm]
  rfl

/-- **Repeated answers without a key make no difference.** -/
theorem rounds_withoutRepeats {before : Option Rat} (answers : List Answer)
    (positive : 0 < h.machine.latch.holdTime)
    (settled : ∀ time, before = some time → h.clock = time ∧ h.Settled) :
    rounds (withoutRepeats before answers) h = rounds answers h := by
  -- the time before is that of the last answer, left out or not: the host is settled there
  induction answers generalizing before h with
  | nil => rfl
  | cons a rest ih =>
    rw [withoutRepeats]
    split
    · rename_i again
      obtain ⟨keyless, repeated⟩ := again
      obtain ⟨same, closed⟩ := settled a.time repeated
      rw [rounds, roundWith_of_settled closed same keyless]
      exact ih positive settled
    · rw [rounds, rounds]
      rcases round : h.roundWith a with ⟨left, _ | escape⟩
      · obtain ⟨same, kept, closed⟩ := roundWith_settled positive round
        apply ih kept
        rintro _ ⟨⟩
        exact ⟨same, closed⟩
      · rfl

end Repeats

/-! ## Repeated rounds -/

/-- **Rounds at the same reading change nothing** unless they bring a key, where a latch holds
its keys for some time.  After a round without an error, a keyless one at the same reading
leaves all but the source as it was.  So a run comes to the same without those rounds: if its
other answers are given at their times, and whenever the answers of another source are the
same without repeats. -/
theorem repeated_rounds_change_nothing {σ : Type} [InputSource σ] (h : Host σ)
    (positive : 0 < h.machine.latch.holdTime) :
    (∀ now, let left := h.poll.1
      let next : Host σ := { left with clock := now }
      h.poll.2 = none → next.keyGiven? = none → next.answerTime = h.answerTime →
        next.poll = (left.withInput next.answered.input, none)) ∧
    ∀ times, let kept := withoutRepeats none (h.answersAt times)
      outcome ((h.prepared kept).pollsAt (kept.map (·.time))) = outcome (h.pollsAt times) ∧
      ∀ (τ : Type) [InputSource τ] (source : τ) (times' : List Rat),
        withoutRepeats none ((h.withInput source).answersAt times') = kept →
          outcome ((h.withInput source).pollsAt times') = outcome (h.pollsAt times) := by
  refine ⟨?_, ?_⟩
  · intro now left next quiet keyless same
    apply poll_of_settled (poll_settled positive quiet) keyless
    rw [poll_clock]
    exact same
  · intro times kept
    have unrepeated : ∀ answers, rounds (withoutRepeats none answers) (h.withInput ()) =
        rounds answers (h.withInput ()) := by
      intro answers
      apply rounds_withoutRepeats answers positive
      rintro _ ⟨⟩
    refine ⟨?_, ?_⟩
    · rw [outcome_pollsAt, answersAt_of_ready kept rfl, outcome_pollsAt, ← unrepeated]
      rfl
    · intro τ _ source times' alike
      rw [outcome_pollsAt, outcome_pollsAt, ← unrepeated (h.answersAt times)]
      show rounds _ (h.withInput ()) = _
      rw [← unrepeated, alike]

/-- Of six rounds two repeat the one before without a key.  Another source repeats other
rounds, and the run comes to the same, with the second key latched. -/
theorem repeated_rounds_change_nothing_twoKeys :
    let h := answering [some 5, none, none, some 7, none, none]
    let times : List Rat := [5, 5, 9, 9, 9, 300]
    let kept : List Answer := [⟨5, some 5⟩, ⟨9, none⟩, ⟨9, some 7⟩, ⟨300, none⟩]
    let other : AnswerList := { answers := [some 5, none, none, some 7], tick := none }
    0 < h.machine.latch.holdTime ∧ withoutRepeats none (h.answersAt times) = kept ∧
      outcome ((h.prepared kept).pollsAt [5, 9, 9, 300]) = outcome (h.pollsAt times) ∧
      outcome ((h.withInput other).pollsAt [5, 9, 9, 9, 300, 300]) = outcome (h.pollsAt times) ∧
      (h.pollsAt [5, 5, 9, 9, 9]).1.machine.latch.key = some 7 ∧
      let first : Host AnswerList := { h with clock := 5 }
      let left := first.poll.1
      left.poll = (left.withInput left.answered.input, none) := by
  intro h times kept other
  have positive : 0 < h.machine.latch.holdTime := by decide +kernel
  have unrepeated : withoutRepeats none (h.answersAt times) = kept := by decide +kernel
  have alike : withoutRepeats none ((h.withInput other).answersAt [5, 9, 9, 9, 300, 300]) =
      withoutRepeats none (h.answersAt times) := by
    decide +kernel
  obtain ⟨-, runs⟩ := repeated_rounds_change_nothing h positive
  obtain ⟨replayed, others⟩ := runs times
  rw [unrepeated] at replayed
  refine ⟨positive, unrepeated, replayed, others _ other _ alike, by decide +kernel, ?_⟩
  intro first left
  exact (repeated_rounds_change_nothing first positive).1 left.clock (by decide +kernel)
    (by decide +kernel) (by decide +kernel)

/-- A host around an instruction that waits for a key, whose latch has this hold. -/
def waiting (holdTime : Rat) (answers : List (Option Rat)) : Host AnswerList :=
  let m := Machine.loaded 0 (RandomStream.cycle []) [0xf0, 0x0a]
  create watched { m with latch := Latch.create 0 holdTime } 0 { answers, tick := none }

/-- **Repeated rounds may matter.**  A latch that does not hold its keys is emptied by a
keyless round at the reading of the press.  And of two runs with rounds at the same reading,
where the same key comes at the same time, one takes it with the instruction that waits for
it, and in the other it comes after that has been tried. -/
theorem repeated_rounds_matter :
    let brief := waiting 0 [some 5, none]
    let early := waiting Latch.standardHold [some 5, none]
    let late := waiting Latch.standardHold [none, some 5]
    (brief.poll.2 = none ∧ brief.poll.1.keyGiven? = none ∧
      brief.poll.1.answerTime = brief.answerTime ∧ brief.poll.1.machine.latch.key = some 5 ∧
      brief.poll.1.poll.1.machine.latch.key = none) ∧
    early.answersAt [5, 5] = [⟨5, some 5⟩, ⟨5, none⟩] ∧
      late.answersAt [5, 5] = [⟨5, none⟩, ⟨5, some 5⟩] ∧
      (early.pollsAt [5, 5]).2 = none ∧ (late.pollsAt [5, 5]).2 = none ∧
      (early.pollsAt [5, 5]).1.machine.pc = 0x202 ∧
      (late.pollsAt [5, 5]).1.machine.pc = 0x200 := by
  refine ⟨⟨?_, ?_, ?_, ?_, ?_⟩, ?_, ?_, ?_, ?_, ?_, ?_⟩ <;> decide +kernel

end Host

end Chip8
