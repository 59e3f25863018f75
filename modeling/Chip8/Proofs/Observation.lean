/-
# Chip8.Proofs.Observation -- watching changes nothing

A host may trace its instructions, log its faults and the programs it loads, and show its
frames.  `unwatched` is the host that does none of this.  What a host does with a round, it
does unwatched, and is then the same but for what was seen (`poll_unwatched`); so do the two
loops (`runUntil_unwatched`, `pacedUntil_unwatched`).

Two hosts that differ in what is watched have one unwatched host (`SameExecution`), so
whatever is called leaves them so, and the same errors escape from both
(`watching_changes_nothing`).
-/
import Chip8.Proofs.SplitRuns

set_option autoImplicit false

namespace Chip8

/-- A silent logger writes nothing. -/
theorem Log.Journal.write_silent (j : Journal) (tag : String) (level : Level) (args : List Arg) :
    j.write { tag, level := .silent } level args = j := by
  cases level <;> rfl

namespace Host

variable {σ : Type}

/-! ## Hosts that nobody watches -/

/-- The host without display and traces, and with silent loggers. -/
def unwatched (h : Host σ) : Host σ :=
  { h with
    settings :=
      { mode := h.settings.mode
        traceInterval := 0
        hasDisplay := false
        hostLevel := .silent
        machineLevel := .silent }
    display := Display.idle
    journal := #[] }

/-- A fault is logged, if at all, and nothing else depends on that. -/
theorem failed_unwatched (h : Host σ) (pc : Rat) (fault : Fault) :
    h.unwatched.failed pc fault =
      ((h.failed pc fault).1.unwatched, (h.failed pc fault).2) := by
  cases mode : h.settings.mode with
  | raise => simp only [Host.failed, unwatched, mode]
  | record => simp only [Host.failed, unwatched, mode, logger, Log.Journal.write_silent]

theorem stepPhase_unwatched (h : Host σ) :
    h.unwatched.stepPhase = (h.stepPhase.1.unwatched, h.stepPhase.2) := by
  apply stepPhase_map h (f := unwatched) (g := id) rfl rfl
  · intro left ins
    rfl
  · intro left fault
    exact failed_unwatched { h with machine := left } h.machine.pc fault

theorem flushPhase_unwatched (h : Host σ) : h.unwatched.flushPhase = h.flushPhase.unwatched :=
  flushPhase_map h rfl rfl

section Runs

variable [InputSource σ] (h : Host σ)

/-- **A round is the same when nobody watches.** -/
theorem poll_unwatched : h.unwatched.poll = (h.poll.1.unwatched, h.poll.2) :=
  poll_map rfl (stepPhase_unwatched _) (flushPhase_unwatched _)

theorem runUntil_unwatched (stop : Rat) (limit : Nat) :
    runUntil stop limit h.unwatched =
      ((runUntil stop limit h).1.unwatched, (runUntil stop limit h).2) := by
  have round : ∀ g : Host σ, True → g.running stop = true →
      (g.unwatched.advance 1).poll = ((g.advance 1).poll.1.unwatched, (g.advance 1).poll.2) ∧
        True :=
    fun g _ _ => ⟨poll_unwatched (g.advance 1), trivial⟩
  have same : ∀ g : Host σ, True → g.unwatched.running stop = g.running stop := fun _ _ => rfl
  exact (runUntil_map same round trivial limit).1

theorem pacedUntil_unwatched (stop every : Rat) (limit rounds pauses : Nat) :
    pacedUntil stop every limit rounds pauses h.unwatched =
      let run := pacedUntil stop every limit rounds pauses h
      { run with host := run.host.unwatched } := by
  induction limit generalizing h rounds pauses with
  | zero => rfl
  | succ limit ih =>
    have same : h.unwatched.running stop = h.running stop := rfl
    simp only [pacedUntil, same, poll_unwatched]
    split
    · rcases h.poll with ⟨left, _ | escape⟩
      · exact ih left _ _
      · rfl
    · rfl

/-! ## Calls -/

/-- A call, cut short when its loop has made so many rounds: the host that it leaves, and
the error that has escaped. -/
def callWithin (limit : Nat) : Call → Host σ × Option Escape
  | .move .poll => h.poll
  | .move move => (h.move move, none)
  | .runFor ms => runUntil (Binary64.add h.clock ms) limit h
  | .runPaced ms every =>
    let run := pacedUntil (Binary64.add h.clock ms) every limit 0 0 h
    (run.host, run.escape)

/-- No call makes more rounds than any run may. -/
theorem callWithin_roundLimit (call : Call) : (h.callWithin roundLimit call).1 = h.call call := by
  rcases call with (time | ms | _) | ms | ⟨ms, every⟩ <;> rfl

theorem callWithin_unwatched (limit : Nat) (call : Call) :
    h.unwatched.callWithin limit call =
      ((h.callWithin limit call).1.unwatched, (h.callWithin limit call).2) := by
  rcases call with (time | ms | _) | ms | ⟨ms, every⟩
  · rfl
  · rfl
  · exact poll_unwatched h
  · exact runUntil_unwatched h _ limit
  · simp only [callWithin]
    rw [show h.unwatched.clock = h.clock from rfl, pacedUntil_unwatched]

theorem called_unwatched (calls : Nat → Call) (n : Nat) :
    h.unwatched.called calls n = (h.called calls n).unwatched := by
  induction n with
  | zero => rfl
  | succ n ih =>
    rw [called, called, ih, ← callWithin_roundLimit, callWithin_unwatched, callWithin_roundLimit]

end Runs

/-! ## Hosts that are watched differently -/

/-- Two hosts that differ in what is watched and in what has been seen. -/
structure SameExecution (h h' : Host σ) : Prop where
  mode : h'.settings.mode = h.settings.mode
  machine : h'.machine = h.machine
  clock : h'.clock = h.clock
  input : h'.input = h.input
  executed : h'.executed = h.executed
  flushed : h'.flushed = h.flushed
  fault : h'.fault = h.fault

theorem sameExecution_iff {h h' : Host σ} :
    SameExecution h h' ↔ h'.unwatched = h.unwatched := by
  constructor
  · rintro ⟨mode, machine, clock, input, executed, flushed, fault⟩
    simp only [unwatched, mode, machine, clock, input, executed, flushed, fault]
  · intro same
    injection same with settings machine clock input executed flushed fault
    injection settings with mode
    exact ⟨mode, machine, clock, input, executed, flushed, fault⟩

section Watching

variable [InputSource σ] {h h' : Host σ}

/-- What was seen makes no difference to a call, nor to the rounds of its loop. -/
theorem SameExecution.callWithin (alike : SameExecution h h') (limit : Nat) (call : Call) :
    SameExecution (h.callWithin limit call).1 (h'.callWithin limit call).1 ∧
      (h'.callWithin limit call).2 = (h.callWithin limit call).2 := by
  have made := congrArg (fun g : Host σ => g.callWithin limit call) (sameExecution_iff.mp alike)
  simp only [callWithin_unwatched] at made
  obtain ⟨left, escape⟩ := Prod.mk.inj made
  exact ⟨sameExecution_iff.mpr left, escape⟩

theorem SameExecution.called (alike : SameExecution h h') (calls : Nat → Call) (n : Nat) :
    SameExecution (h.called calls n) (h'.called calls n) := by
  rw [sameExecution_iff, ← called_unwatched, ← called_unwatched, sameExecution_iff.mp alike]

omit [InputSource σ] in
/-- A program is loaded alike, whether or not that is told. -/
theorem SameExecution.loadRom (alike : SameExecution h h') (image : List Rat) :
    SameExecution (h.loadRom image).1 (h'.loadRom image).1 ∧
      (h'.loadRom image).2 = (h.loadRom image).2 := by
  obtain ⟨journal, left⟩ := loadRom_eq h image
  obtain ⟨journal', left'⟩ := loadRom_eq h' image
  rw [left, left', alike.machine]
  exact ⟨{ alike with machine := rfl }, rfl⟩

/-- **Watching changes nothing.**  Take two hosts that are the same but for the interval at
which they trace, the levels of their loggers, and whether they have a display.  Whatever is
called, they go through the same machines, clocks, inputs, counts and faults, after every
round of every run, and the same error escapes from each call.  So it is if programs are
loaded. -/
theorem watching_changes_nothing (alike : SameExecution h h') (calls : Nat → Call) (n : Nat) :
    SameExecution (h.called calls n) (h'.called calls n) ∧
      (∀ limit,
        let left := (h.called calls n).callWithin limit (calls n)
        let left' := (h'.called calls n).callWithin limit (calls n)
        SameExecution left.1 left'.1 ∧ left'.2 = left.2) ∧
      ∀ image,
        let left := (h.called calls n).loadRom image
        let left' := (h'.called calls n).loadRom image
        SameExecution left.1 left'.1 ∧ left'.2 = left.2 := by
  have before := alike.called calls n
  refine ⟨before, ?_, before.loadRom⟩
  intro limit
  exact before.callWithin limit (calls n)

/-- A host with a display that traces and logs everything. -/
def seenClears : Host Unit :=
  create { watched with traceInterval := 1, hostLevel := .trace, machineLevel := .debug }
    (Machine.loaded 1000 (RandomStream.cycle []) fourClears) 1000 ()

/-- The same machine in a host that does nothing of it. -/
def unseenClears : Host Unit :=
  create { watched with hasDisplay := false }
    (Machine.loaded 1000 (RandomStream.cycle []) fourClears) 1000 ()

/-- The one host traces four instructions, logs the fault and shows a frame, and the other
does none of it.  Both count four instructions and one frame. -/
theorem watching_changes_nothing_fourClears :
    let calls : Nat → Call := fun _ => .runFor 100
    let seen := seenClears.called calls 1
    let unseen := unseenClears.called calls 1
    SameExecution seen unseen ∧ seen.executed = 4 ∧ seen.flushed = 1 ∧
      (seen.journal.size, seen.display.presented) = (5, 1) ∧
      (unseen.journal.size, unseen.display.presented) = (0, 0) := by
  intro calls seen unseen
  have alike : SameExecution seenClears unseenClears := ⟨rfl, rfl, rfl, rfl, rfl, rfl, rfl⟩
  have counts : seen.executed = 4 ∧ seen.flushed = 1 ∧
      (seen.journal.size, seen.display.presented) = (5, 1) ∧
      (unseen.journal.size, unseen.display.presented) = (0, 0) := by
    decide +kernel
  exact ⟨(watching_changes_nothing alike calls 1).1, counts⟩

end Watching

end Host

end Chip8
