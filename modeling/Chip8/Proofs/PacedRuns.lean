/-
# Chip8.Proofs.PacedRuns -- time that the source lets pass

A run in simulated time moves the clock before every round; a paced run leaves the clock to
the source.  If the source lets a millisecond pass whenever it is asked, and then gives the
key that another source gives at that reading (`MillisecondAhead`), the two loops read the
same clock in every round, so a paced run with the one is a run in simulated time with the
other (`pacedUntil_withInput`): one round does the same to either host
(`poll_withInput`), since after its answer no phase asks the source again.

Pauses are counted, and there is one after every so many rounds (`pacedUntil_pauses`).
`runPaced_eq_runFor` puts both together.
-/
import Chip8.Proofs.SplitRuns
import Mathlib.Data.Rat.Lemmas

set_option autoImplicit false

namespace Chip8.Host

/-! ## Sources a millisecond ahead -/

section Sources

variable {σ τ : Type} [InputSource σ] [InputSource τ]

/-- From this reading of the clock on, the first source lets a millisecond pass each time
it is asked, and gives the key that the second gives at the reading it has come to. -/
def MillisecondAhead (clock : Rat) (ticking : σ) (still : τ) : Prop :=
  ∃ Alike : Rat → σ → τ → Prop, Alike clock ticking still ∧
    ∀ clock ticking still, Alike clock ticking still →
      let later := Binary64.add clock 1
      let early := InputSource.ask ticking clock
      let late := InputSource.ask still later
      early.key = late.key ∧ early.clock = later ∧ late.clock = later ∧
        Alike later early.source late.source

theorem MillisecondAhead.ask {clock : Rat} {ticking : σ} {still : τ}
    (ahead : MillisecondAhead clock ticking still) :
    let later := Binary64.add clock 1
    let early := InputSource.ask ticking clock
    let late := InputSource.ask still later
    early.key = late.key ∧ early.clock = later ∧ late.clock = later ∧
      MillisecondAhead later early.source late.source := by
  obtain ⟨Alike, here, stays⟩ := ahead
  obtain ⟨key, early, late, next⟩ := stays clock ticking still here
  exact ⟨key, early, late, Alike, next, stays⟩

/-- Prepared answers that let a millisecond pass are ahead of the same answers without. -/
theorem millisecondAhead_answerList (clock : Rat) (answers : List (Option Rat)) :
    MillisecondAhead clock ({ answers, tick := some 1 } : AnswerList)
      ({ answers, tick := none } : AnswerList) := by
  refine ⟨fun _ ticking still => ticking.answers = still.answers ∧ ticking.tick = some 1 ∧
    still.tick = none, ⟨rfl, rfl, rfl⟩, ?_⟩
  rintro clock ⟨answers, _⟩ ⟨_, _⟩ ⟨rfl, rfl, rfl⟩
  exact ⟨rfl, rfl, rfl, rfl, rfl, rfl⟩

end Sources

/-! ## Another source -/

section Source

variable {σ τ : Type} (h : Host τ) (source : σ)

/-- The host with another source. -/
def withInput : Host σ :=
  { settings := h.settings
    machine := h.machine
    clock := h.clock
    input := source
    executed := h.executed
    flushed := h.flushed
    fault := h.fault
    display := h.display
    journal := h.journal }

/-- The step phase does not ask the source. -/
theorem stepPhase_withInput :
    (h.withInput source).stepPhase = (h.stepPhase.1.withInput source, h.stepPhase.2) := by
  apply stepPhase_map h (f := fun left => left.withInput source) (g := id) rfl rfl
  · intro left ins
    rfl
  · intro left fault
    simp only [Host.failed, withInput]
    cases h.settings.mode <;> rfl

/-- Nor does the flush phase. -/
theorem flushPhase_withInput :
    (h.withInput source).flushPhase = h.flushPhase.withInput source :=
  flushPhase_map h (f := fun left => left.withInput source) rfl rfl

end Source

/-! ## One round and a run of them -/

section Run

variable {σ τ : Type} [InputSource σ] [InputSource τ] {h : Host τ} {source : σ}

/-- What a round does depends on the host after the answer. -/
theorem poll_of_answered {g : Host σ} (same : g.answered = h.answered.withInput source) :
    g.poll = (h.poll.1.withInput source, h.poll.2) := by
  apply poll_map (f := fun left => left.withInput source) same
  · exact stepPhase_withInput _ source
  · exact flushPhase_withInput _ source

/-- After the answers the two hosts are the same but for their sources. -/
theorem answered_withInput (ahead : MillisecondAhead h.clock source h.input) :
    (h.withInput source).answered =
      (h.advance 1).answered.withInput (InputSource.ask source h.clock).source := by
  obtain ⟨key, early, late, -⟩ := ahead.ask
  simp only [answered, withInput, advance, key, early, late]

/-- **A round does the same to both hosts.** -/
theorem poll_withInput (ahead : MillisecondAhead h.clock source h.input) :
    (h.withInput source).poll =
      ((h.advance 1).poll.1.withInput (InputSource.ask source h.clock).source,
        (h.advance 1).poll.2) :=
  poll_of_answered (answered_withInput ahead)

/-- The host in simulated time moves the clock by the millisecond of its round. -/
theorem MillisecondAhead.tick_clock (ahead : MillisecondAhead h.clock source h.input) :
    h.tick.clock = Binary64.add h.clock 1 := by
  obtain ⟨-, -, late, -⟩ := ahead.ask
  rw [Host.tick, poll_clock]
  exact late

/-- After a round the one source is ahead of the other again. -/
theorem MillisecondAhead.tick (ahead : MillisecondAhead h.clock source h.input) :
    MillisecondAhead h.tick.clock (InputSource.ask source h.clock).source h.tick.input := by
  obtain ⟨-, -, -, next⟩ := ahead.ask
  rw [ahead.tick_clock, Host.tick, poll_input]
  exact next

/-- The clock of the host in simulated time shows the rounds. -/
theorem MillisecondAhead.metered {start : Int} {ms : Nat}
    (ahead : MillisecondAhead h.clock source h.input) (clock : h.clock = (start : Rat))
    (low : -9007199254740992 ≤ start) (high : start + ms ≤ 9007199254740992) :
    Metered start ms h := by
  apply metered_of_rounds (fun g => ∃ source : σ, MillisecondAhead g.clock source g.input) ?_
    ⟨source, ahead⟩ clock low high
  rintro g ⟨source, ahead⟩
  exact ⟨ahead.tick_clock, _, ahead.tick⟩

/-- **A paced run is a run in simulated time**, round by round. -/
theorem pacedUntil_withInput (stop every : Rat) (limit rounds pauses : Nat)
    (ahead : MillisecondAhead h.clock source h.input) :
    let paced := pacedUntil stop every limit rounds pauses (h.withInput source)
    let simulated := runUntil stop limit h
    (∃ left, paced.host = simulated.1.withInput left) ∧ paced.escape = simulated.2 := by
  induction limit generalizing h source rounds pauses with
  | zero => exact ⟨⟨source, rfl⟩, rfl⟩
  | succ limit ih =>
    cases goesOn : h.running stop with
    | false =>
      have finished : (h.withInput source).running stop = false := goesOn
      rw [runUntil_of_not_running goesOn]
      simp only [pacedUntil, finished]
      exact ⟨⟨source, rfl⟩, rfl⟩
    | true =>
      have goesOn' : (h.withInput source).running stop = true := goesOn
      have next := ahead.tick
      rw [runUntil_round goesOn]
      simp only [pacedUntil, goesOn', if_true, poll_withInput ahead]
      rcases round : (h.advance 1).poll with ⟨left, _ | escape⟩
      · rw [Host.tick, round] at next
        exact ih _ _ next
      · exact ⟨⟨_, rfl⟩, rfl⟩

end Run

/-! ## Pauses -/

section Pauses

variable {σ : Type} [InputSource σ]

/-- There is a pause after every so many rounds. -/
theorem pauseDue_natCast {every : Nat} (positive : 1 ≤ every) (number : Nat) :
    pauseDue (every : Rat) number = decide (every ∣ number) := by
  have nonzero : every ≠ 0 := by omega
  have asked : (every : Rat) ≠ 0 := by exact_mod_cast nonzero
  have whole : ((number : Rat) / every).den = 1 ↔ every ∣ number :=
    Rat.den_div_natCast_eq_one_iff number every nonzero
  rw [pauseDue, bne_iff_ne.mpr asked, Bool.true_and, Bool.eq_iff_iff, beq_iff_eq, whole,
    decide_eq_true_iff]

/-- **Pauses are counted by division**: as many as the interval fits into the rounds. -/
theorem pacedUntil_pauses {every : Nat} (positive : 1 ≤ every) (stop : Rat)
    (limit rounds : Nat) (h : Host σ) :
    let paced := pacedUntil stop every limit rounds (rounds / every) h
    paced.pauses = paced.rounds / every := by
  induction limit generalizing rounds h with
  | zero => rfl
  | succ limit ih =>
    have counted : (if pauseDue (every : Rat) (rounds + 1) then rounds / every + 1
        else rounds / every) = (rounds + 1) / every := by
      rw [pauseDue_natCast positive, Nat.succ_div]
      by_cases due : every ∣ rounds + 1 <;> simp [due]
    simp only [pacedUntil]
    split
    · rcases h.poll with ⟨left, _ | escape⟩
      · simp only [counted]
        exact ih (rounds + 1) left
      · rfl
    · rfl

/-- The rounds counted are those completed: the round from which an error escapes is made,
but not counted. -/
theorem pacedUntil_polls (stop every : Rat) (limit rounds pauses : Nat) (h : Host σ) :
    let paced := pacedUntil stop every limit rounds pauses h
    ∃ n, paced.rounds = rounds + n ∧
      (paced.host, paced.escape) = h.polls (n + paced.escape.toList.length) := by
  induction limit generalizing rounds pauses h with
  | zero => exact ⟨0, rfl, rfl⟩
  | succ limit ih =>
    simp only [pacedUntil]
    split
    · rcases round : h.poll with ⟨left, _ | escape⟩
      · obtain ⟨n, counted, made⟩ :=
          ih (rounds + 1) (if pauseDue every (rounds + 1) then pauses + 1 else pauses) left
        refine ⟨n + 1, ?_, ?_⟩
        · rw [counted]
          omega
        · rw [made, Nat.add_right_comm, polls, round]
      · refine ⟨0, rfl, ?_⟩
        show _ = h.polls 1
        rw [polls, round]
    · exact ⟨0, rfl, rfl⟩

end Pauses

/-! ## Agreement -/

section Agreement

variable {σ τ : Type} [InputSource σ] [InputSource τ]

/-- **A paced run agrees with a run in simulated time.**  With a source that lets a
millisecond pass in every round and gives the keys that another gives a millisecond later, a
paced run ends with the same host as a run in simulated time with the other, and with the
same error, if one escapes.  It has made as many rounds as it has counted, and one more if
an error has escaped from that, and has paused after every so many.  From an exact clock
reading to another both come to their end. -/
theorem runPaced_eq_runFor {h : Host τ} {source : σ} {ms every : Nat} (positive : 1 ≤ every)
    (ahead : MillisecondAhead h.clock source h.input) :
    let paced := (h.withInput source).runPaced ms every
    let simulated := h.runFor ms
    (∃ left, paced.host = simulated.1.withInput left) ∧ paced.escape = simulated.2 ∧
      paced.pauses = paced.rounds / every ∧
      (paced.host, paced.escape) =
        (h.withInput source).polls (paced.rounds + paced.escape.toList.length) ∧
      ∀ start : Int, h.clock = (start : Rat) → -9007199254740992 ≤ start →
        start + ms < 9007199254740992 → Ended ((start + ms : Int) : Rat) simulated := by
  have same : (h.withInput source).clock = h.clock := rfl
  simp only [runPaced, same]
  refine ⟨?_, ?_, ?_, ?_, ?_⟩
  · rw [runFor]
    exact (pacedUntil_withInput _ _ _ 0 0 ahead).1
  · rw [runFor]
    exact (pacedUntil_withInput _ _ _ 0 0 ahead).2
  · have counted := pacedUntil_pauses positive (Binary64.add h.clock ms) roundLimit 0
      (h.withInput source)
    rw [Nat.zero_div] at counted
    exact counted
  · obtain ⟨n, counted, made⟩ := pacedUntil_polls (Binary64.add h.clock ms) every roundLimit 0 0
      (h.withInput source)
    rw [Nat.zero_add] at counted
    rw [counted]
    exact made
  · intro start clock low high
    have limit : ms ≤ roundLimit := by
      rw [roundLimit]
      omega
    rw [runFor_eq_runUntil ms clock low high]
    exact (runUntil_metered (ahead.metered clock low (by omega)) rfl limit).2

/-- A host that raises the fault of its fifth instruction, and is told of a key before. -/
def toldClears : Host AnswerList :=
  create { watched with mode := .raise }
    (Machine.loaded 1000 (RandomStream.cycle []) fourClears) 1000
    { answers := [none, some 5], tick := none }

/-- The fault escapes from the fifteenth round.  The fourteen before it are completed, with a
pause after every seventh. -/
theorem runPaced_eq_runFor_toldClears :
    let source : AnswerList := { answers := [none, some 5], tick := some 1 }
    let paced := (toldClears.withInput source).runPaced (20 : Nat) (7 : Nat)
    (∃ left, paced.host = (toldClears.runFor (20 : Nat)).1.withInput left) ∧
      paced.escape = some (.fault (.invalidInstruction 0x208 0)) ∧
      paced.rounds = 14 ∧ paced.pauses = 2 ∧ paced.host.machine.latch.key = some 5 := by
  intro source paced
  have ahead : MillisecondAhead toldClears.clock source toldClears.input :=
    millisecondAhead_answerList _ _
  have positive : 1 ≤ 7 := by decide
  obtain ⟨host, -, pauses, -⟩ := runPaced_eq_runFor positive ahead
  have run : paced.escape = some (.fault (.invalidInstruction 0x208 0)) ∧ paced.rounds = 14 ∧
      paced.host.machine.latch.key = some 5 := by
    decide +kernel
  obtain ⟨escape, rounds, key⟩ := run
  exact ⟨host, escape, rounds, by rw [pauses, rounds], key⟩

end Agreement

end Chip8.Host
