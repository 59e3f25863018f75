/-
# Chip8.Proofs.Cadence -- a run keeps time

In a run of simulated time a round comes after every millisecond (`tick`).  An instruction
is due once more than two milliseconds have passed since the last, a frame once more than
ten have, so on exact clock readings one is tried in every third round and the other shown
in every eleventh.  `OnTime` says so of a host after `n` rounds, one round keeps it
(`OnTime.tick`), and so the run does, up to its end or the first fault (`runFor_onTime`).
This needs a source that leaves the clock alone, and nothing of the keys it gives.
-/
import Chip8.Proofs.Rounds
import Mathlib.Logic.Function.Iterate

set_option autoImplicit false

namespace Chip8

/-! ## Gates -/

namespace Machine

variable {m : Machine} {since now : Int} (low : -9007199254740992 ≤ since) (order : since ≤ now)
  (high : now ≤ 9007199254740992) (near : now - since ≤ 9007199254740992)

include low order high near

theorem canStep_eq (stepped : m.lastStepAt = (since : Rat)) :
    m.canStep (now : Rat) = decide (2 < now - since) := by
  rw [canStep, stepped, Binary64.sub?_exact low order high near]
  exact decide_eq_decide.mpr (Rat.intCast_lt_intCast (a := 2))

theorem canFlush_eq (shown : m.screen.lastFlushAt = (since : Rat)) :
    m.canFlush (now : Rat) = decide (10 < now - since) := by
  rw [canFlush, Screen.canFlush, shown, Binary64.sub?_exact low order high near]
  exact decide_eq_decide.mpr (Rat.intCast_lt_intCast (a := 10))

end Machine

namespace Host

variable {σ : Type} [InputSource σ]

/-- A millisecond passes, and then there is a round. -/
def tick (h : Host σ) : Host σ := (h.advance 1).poll.1

/-- The machine of the next round between its step phase and its flush phase. -/
def midRound (h : Host σ) : Machine := (h.advance 1).answered.stepPhase.1.machine

/-- The number of the instruction that has failed, if one has. -/
def failedAt? (h : Host σ) : Option Nat := h.fault.map fun _ => h.executed + 1

/-- A source that never moves the clock, whenever it is asked: it is in a set of sources that
leave the clock alone and that no answer leads out of. -/
def KeepsClock (source : σ) : Prop :=
  ∃ Still : σ → Prop, Still source ∧ ∀ s, Still s → ∀ clock,
    (InputSource.ask s clock).clock = clock ∧ Still (InputSource.ask s clock).source

theorem KeepsClock.clock_ask {source : σ} (keeps : KeepsClock source) (clock : Rat) :
    (InputSource.ask source clock).clock = clock := by
  obtain ⟨Still, here, stays⟩ := keeps
  exact (stays source here clock).1

theorem KeepsClock.source_ask {source : σ} (keeps : KeepsClock source) (clock : Rat) :
    KeepsClock (InputSource.ask source clock).source := by
  obtain ⟨Still, here, stays⟩ := keeps
  exact ⟨Still, (stays source here clock).2, stays⟩

/-! ## One round -/

/-- A host after `n` rounds, a millisecond apart from time `start` on: an instruction has
been tried in every third round and a frame shown in every eleventh, and a fault is that of
the last round. -/
structure OnTime (start : Int) (n : Nat) (h : Host σ) : Prop where
  mode : h.settings.mode = .record
  keeps : KeepsClock h.input
  clock : h.clock = ((start + n : Int) : Rat)
  stepped : h.machine.lastStepAt = ((start + 3 * (n / 3 : Nat) : Int) : Rat)
  shown : h.machine.screen.lastFlushAt = ((start + 11 * (n / 11 : Nat) : Int) : Rat)
  flushed : h.flushed = n / 11
  tried : h.executed + h.fault.toList.length = n / 3
  halts : h.fault ≠ none → n % 3 = 0

section Round

variable {h : Host σ} {start : Int} {n : Nat}

theorem tick_settings (h : Host σ) : h.tick.settings = h.settings :=
  poll_settings (h := h.advance 1)

theorem iterate_tick_settings (h : Host σ) (n : Nat) : (tick^[n] h).settings = h.settings := by
  induction n with
  | zero => rfl
  | succ n ih => rw [Function.iterate_succ_apply', tick_settings, ih]

/-- The three phases of a round, without an escape. -/
theorem tick_of_record (mode : h.settings.mode = .record) :
    h.tick = (h.advance 1).answered.stepPhase.1.flushPhase := by
  rw [tick, poll_of_record (h := h.advance 1) mode]

namespace OnTime

variable (onTime : OnTime start n h) (low : -9007199254740992 ≤ start)
  (high : start + n < 9007199254740992)

include onTime low high

theorem clock_answered :
    (h.advance 1).answered.clock = ((start + (n + 1 : Nat) : Int) : Rat) := by
  have later : (start + n + (1 : Nat) : Int) = start + (n + 1 : Nat) := by omega
  have passed : Binary64.add ((start + n : Int) : Rat) ((1 : Nat) : Rat) =
      ((start + n + (1 : Nat) : Int) : Rat) :=
    Binary64.add_exact (by omega) (by omega)
  have asked : (h.advance 1).answered.clock = (h.advance 1).clock :=
    onTime.keeps.clock_ask (h.advance 1).clock
  rw [asked, advance, onTime.clock, ← later]
  exact passed

/-- An instruction is due in every third round. -/
theorem stepDue_answered (unfailed : h.fault = none) :
    (h.advance 1).answered.stepDue = decide ((n + 1) % 3 = 0) := by
  have due : (h.advance 1).answered.machine.canStep ((start + (n + 1 : Nat) : Int) : Rat) = _ :=
    Machine.canStep_eq (by omega) (by omega) (by omega) (by omega) onTime.stepped
  have running : (h.advance 1).answered.halted = false := by
    have kept : (h.advance 1).answered.fault = none := unfailed
    rw [halted, kept]
    rfl
  rw [stepDue, running, onTime.clock_answered low high, due]
  simp only [Bool.not_false, Bool.true_and, decide_eq_decide]
  omega

/-- A frame is due in every eleventh round. -/
theorem flushDue_answered :
    (h.advance 1).answered.flushDue = decide ((n + 1) % 11 = 0) := by
  have due : (h.advance 1).answered.machine.canFlush ((start + (n + 1 : Nat) : Int) : Rat) = _ :=
    Machine.canFlush_eq (by omega) (by omega) (by omega) (by omega) onTime.shown
  rw [flushDue, onTime.clock_answered low high, due, decide_eq_decide]
  omega

theorem tick_clock : h.tick.clock = ((start + (n + 1 : Nat) : Int) : Rat) := by
  rw [tick_of_record onTime.mode, (flushPhase_frame _).2.1, (stepPhase_frame _).2.1,
    onTime.clock_answered low high]

theorem tick_flushed :
    h.tick.flushed = if (n + 1) % 11 = 0 then h.flushed + 1 else h.flushed := by
  have before : (h.advance 1).answered.stepPhase.1.flushed = h.flushed :=
    (stepPhase_frame _).2.2.2.1
  rw [tick_of_record onTime.mode, flushPhase_flushed, stepPhase_flushDue,
    onTime.flushDue_answered low high, before]
  simp only [decide_eq_true_eq]

theorem tick_machine :
    h.tick.machine =
      if (n + 1) % 11 = 0 then h.midRound.flushed ((start + (n + 1 : Nat) : Int) : Rat)
      else h.midRound := by
  rw [tick_of_record onTime.mode, flushPhase_machine, stepPhase_flushDue,
    onTime.flushDue_answered low high, (stepPhase_frame _).2.1,
    onTime.clock_answered low high]
  simp only [decide_eq_true_eq]
  rfl

/-- A flush in every eleventh round keeps the screen as after the last of them. -/
theorem tick_machine_of_flushed {bare : Machine}
    (middle : h.midRound = bare.flushed ((start + 11 * (n / 11 : Nat) : Int) : Rat)) :
    h.tick.machine = bare.flushed ((start + 11 * ((n + 1) / 11 : Nat) : Int) : Rat) := by
  rw [onTime.tick_machine low high, middle]
  split
  · have time : (start + (n + 1 : Nat) : Int) = start + 11 * ((n + 1) / 11 : Nat) := by omega
    rw [time]
    rfl
  · have same : (n + 1) / 11 = n / 11 := by omega
    rw [same]

theorem tick_display :
    h.tick.display =
      if (n + 1) % 11 = 0 ∧ h.settings.hasDisplay then
        h.display.present h.midRound.screen.cells
      else h.display := by
  obtain ⟨settings, -, -, -, display⟩ := stepPhase_frame (h.advance 1).answered
  rw [tick_of_record onTime.mode, flushPhase_display, stepPhase_flushDue,
    onTime.flushDue_answered low high, settings, display]
  simp only [decide_eq_true_eq]
  rfl

variable (unfailed : h.fault = none)

include unfailed

theorem tick_fault :
    h.tick.fault =
      if (n + 1) % 3 = 0 then
        (h.advance 1).answered.machine.fault? ((start + (n + 1 : Nat) : Int) : Rat)
      else none := by
  have before : (h.advance 1).answered.fault = none := unfailed
  rw [tick_of_record onTime.mode, (flushPhase_frame _).2.2.2.2, stepPhase_fault, before,
    onTime.stepDue_answered low high unfailed, onTime.clock_answered low high]
  simp only [decide_eq_true_eq]

theorem tick_executed :
    h.tick.executed =
      if (n + 1) % 3 = 0 ∧ h.tick.fault = none then h.executed + 1 else h.executed := by
  have before : (h.advance 1).answered.executed = h.executed := rfl
  rw [onTime.tick_fault low high unfailed, tick_of_record onTime.mode,
    (flushPhase_frame _).2.2.2.1, stepPhase_executed, before,
    onTime.stepDue_answered low high unfailed, onTime.clock_answered low high]
  by_cases third : (n + 1) % 3 = 0 <;> simp [third]

theorem midRound_eq :
    h.midRound =
      if (n + 1) % 3 = 0 then
        ((h.advance 1).answered.machine.step ((start + (n + 1 : Nat) : Int) : Rat)).1
      else (h.advance 1).answered.machine := by
  rw [midRound, stepPhase_machine, onTime.stepDue_answered low high unfailed,
    onTime.clock_answered low high]
  simp only [decide_eq_true_eq]

theorem midRound_lastStepAt :
    h.midRound.lastStepAt = ((start + 3 * ((n + 1) / 3 : Nat) : Int) : Rat) := by
  rw [onTime.midRound_eq low high unfailed]
  split
  · rw [Machine.step_fst_lastStepAt]
    congr 1
    omega
  · have same : (start + 3 * ((n + 1) / 3 : Nat) : Int) = start + 3 * (n / 3 : Nat) := by omega
    rw [same]
    exact onTime.stepped

/-- **A round keeps time.** -/
theorem tick : OnTime start (n + 1) h.tick where
  mode := by
    rw [h.tick_settings]
    exact onTime.mode
  keeps := by
    rw [tick_of_record onTime.mode, (flushPhase_frame _).2.2.1, (stepPhase_frame _).2.2.1]
    exact onTime.keeps.source_ask _
  clock := onTime.tick_clock low high
  stepped := by
    rw [onTime.tick_machine low high, ← onTime.midRound_lastStepAt low high unfailed]
    split <;> rfl
  shown := by
    have before : h.midRound.screen.lastFlushAt = ((start + 11 * (n / 11 : Nat) : Int) : Rat) := by
      rw [onTime.midRound_eq low high unfailed]
      split
      · rw [Machine.step_fst_lastFlushAt]
        exact onTime.shown
      · exact onTime.shown
    rw [onTime.tick_machine low high]
    split
    · show ((start + (n + 1 : Nat) : Int) : Rat) = _
      congr 1
      omega
    · rw [before]
      congr 1
      omega
  flushed := by
    rw [onTime.tick_flushed low high, onTime.flushed]
    split <;> omega
  tried := by
    have tried := onTime.tried
    rw [unfailed, Option.toList_none, List.length_nil] at tried
    rw [onTime.tick_executed low high unfailed]
    have fault := onTime.tick_fault low high unfailed
    by_cases third : (n + 1) % 3 = 0
    · cases failed : h.tick.fault with
      | none => simp [third]; omega
      | some f => simp [third]; omega
    · rw [if_neg third] at fault
      simp [third, fault]
      omega
  halts := by
    rw [onTime.tick_fault low high unfailed]
    intro failed
    by_contra other
    exact failed (if_neg other)

end OnTime

end Round

/-! ## Runs -/

section Run

variable {h : Host σ} {start : Int} {n ms limit : Nat} {stop : Rat}

theorem runUntil_of_not_running (ended : h.running stop = false) :
    runUntil stop limit h = (h, none) := by
  cases limit <;> simp [runUntil, ended]

theorem runUntil_of_running (mode : h.settings.mode = .record) (goesOn : h.running stop = true) :
    runUntil stop (limit + 1) h = runUntil stop limit h.tick := by
  have round : (h.advance 1).poll = (h.tick, none) := by
    rw [tick_of_record mode, poll_of_record (h := h.advance 1) mode]
  rw [runUntil, if_pos goesOn, round]

/-- A run goes on until its end, unless a fault has halted the host. -/
theorem OnTime.running_eq (onTime : OnTime start n h) :
    h.running ((start + ms : Int) : Rat) = (decide (n < ms) && !h.halted) := by
  have before : h.clock < ((start + ms : Int) : Rat) ↔ n < ms := by
    rw [onTime.clock, Rat.intCast_lt_intCast]
    omega
  rw [running, decide_eq_decide.mpr before]

/-- Rounds that keep time, from any round of a run on: as many as are left, or up to the
first fault. -/
theorem runUntil_onTime (low : -9007199254740992 ≤ start)
    (high : start + ms < 9007199254740992) {left : Nat} (onTime : OnTime start n h)
    (rest : n + left = ms) (enough : left ≤ limit) :
    ∃ k ≤ left, runUntil ((start + ms : Int) : Rat) limit h = (tick^[k] h, none) ∧
      (∀ j ≤ k, OnTime start (n + j) (tick^[j] h)) ∧
      (∀ j < k, (tick^[j] h).fault = none) ∧ (k = left ∨ (tick^[k] h).fault ≠ none) := by
  induction left generalizing h n limit with
  | zero =>
    have ended : h.running ((start + ms : Int) : Rat) = false := by
      rw [onTime.running_eq, decide_eq_false (by omega), Bool.false_and]
    refine ⟨0, Nat.le_refl 0, runUntil_of_not_running ended, ?_, by simp, Or.inl rfl⟩
    intro j here
    obtain rfl := Nat.le_zero.mp here
    exact onTime
  | succ left ih =>
    cases failed : h.fault with
    | some fault =>
      have ended : h.running ((start + ms : Int) : Rat) = false := by
        rw [onTime.running_eq, halted, failed]
        exact Bool.and_false _
      refine ⟨0, Nat.zero_le _, runUntil_of_not_running ended, ?_, by simp, ?_⟩
      · intro j here
        obtain rfl := Nat.le_zero.mp here
        exact onTime
      · exact Or.inr (by simp [failed])
    | none =>
      have goesOn : h.running ((start + ms : Int) : Rat) = true := by
        rw [onTime.running_eq, halted, failed, decide_eq_true (by omega : n < ms)]
        rfl
      obtain ⟨limit, rfl⟩ : ∃ less, limit = less + 1 := ⟨limit - 1, by omega⟩
      have next := onTime.tick low (by omega) failed
      obtain ⟨k, within, run, kept, unfailed, ended⟩ :=
        ih next (by omega) (by omega : left ≤ limit)
      refine ⟨k + 1, by omega, ?_, ?_, ?_, ?_⟩
      · rw [runUntil_of_running onTime.mode goesOn, run, Function.iterate_succ_apply]
      · rintro (_ | j) before
        · exact onTime
        · have later := kept j (by omega)
          rw [Nat.add_right_comm, Nat.add_assoc] at later
          exact later
      · rintro (_ | j) before
        · exact failed
        · exact unfailed j (by omega)
      · rw [Function.iterate_succ_apply]
        exact ended.imp_left (congrArg (· + 1))

/-- **A run keeps time**, up to its end or the first fault. -/
theorem runFor_onTime (low : -9007199254740992 ≤ start)
    (high : start + ms < 9007199254740992) (onTime : OnTime start 0 h) :
    ∃ n ≤ ms, h.runFor ms = (tick^[n] h, none) ∧ (∀ j ≤ n, OnTime start j (tick^[j] h)) ∧
      (∀ j < n, (tick^[j] h).fault = none) ∧ (n = ms ∨ (tick^[n] h).fault ≠ none) := by
  have stop : Binary64.add h.clock ms = ((start + ms : Int) : Rat) := by
    rw [onTime.clock]
    have whole : (start + (0 : Nat) : Int) = start := by omega
    rw [whole]
    exact Binary64.add_exact low (by omega)
  have enough : ms ≤ roundLimit := by
    rw [roundLimit]
    omega
  have run := runUntil_onTime low high onTime (Nat.zero_add ms) enough
  simp only [Nat.zero_add] at run
  rw [runFor, stop]
  exact run

/-- A run that has come to its end, or to the first fault. -/
theorem runFor_eq_iterate (low : -9007199254740992 ≤ start)
    (high : start + ms < 9007199254740992) (onTime : OnTime start 0 h) (within : n ≤ ms)
    (unfailed : ∀ j < n, (tick^[j] h).fault = none)
    (ended : n = ms ∨ (tick^[n] h).fault ≠ none) : h.runFor ms = (tick^[n] h, none) := by
  obtain ⟨k, small, run, -, clean, finished⟩ := runFor_onTime low high onTime
  rcases Nat.lt_trichotomy k n with less | rfl | more
  · rcases finished with rfl | failed
    · omega
    · exact absurd (unfailed k less) failed
  · exact run
  · rcases ended with rfl | failed
    · omega
    · exact absurd (clean n more) failed

/-- The instruction that has failed tells how many rounds there were, and how many
instructions. -/
theorem OnTime.counts (onTime : OnTime start n h) (ended : n = ms ∨ h.fault ≠ none) :
    n = (h.failedAt?.map (3 * ·)).getD ms ∧
      h.executed = (h.failedAt?.map (· - 1)).getD (ms / 3) := by
  have tried := onTime.tried
  cases failed : h.fault with
  | none =>
    have all : n = ms := ended.resolve_right (by simp [failed])
    rw [failed] at tried
    simp only [failedAt?, failed, Option.map_none, Option.getD_none]
    exact ⟨all, all ▸ tried⟩
  | some fault =>
    have third := onTime.halts (by simp [failed])
    rw [failed] at tried
    simp only [Option.toList_some, List.length_singleton] at tried
    simp only [failedAt?, failed, Option.map_some, Option.getD_some]
    omega

/-- A new host around a machine made at the same time is on time. -/
theorem onTime_create {settings : Settings} (mode : settings.mode = .record) {m : Machine}
    (stepped : m.lastStepAt = (start : Rat)) (shown : m.screen.lastFlushAt = (start : Rat))
    {source : σ} (keeps : KeepsClock source) :
    OnTime start 0 (create settings m (start : Rat) source) := by
  have here := (Binary64.reading_zero start).symm
  exact
    { mode
      keeps
      clock := here
      stepped := stepped.trans here
      shown := shown.trans here
      flushed := rfl
      tried := rfl
      halts := fun _ => rfl }

end Run

end Host

end Chip8
