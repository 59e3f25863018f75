/-
# Chip8.Proofs.BareStepping -- a run without keys is bare stepping

`Machine.paced` steps a machine every three milliseconds, with nobody around it, and
`Machine.frames` shows its screen every eleven.  A host without keys does the same: after
`n` rounds its machine is the one that `n / 3` bare steps leave, and its display has shown
`n / 11` frames (`Paced`).  A round keeps that (`Paced.tick`), and a fault ends the run in
the round of the bare step that fails (`iterate_tick_fails`).

`runFor_is_bare_stepping` puts this together with the counts, which a run with keys shares.
Clock readings are exact down to `-2 ^ 53`.  From far below that the clock does not move at
all, and a run ends without a round (`runFor_stuck`).
-/
import Chip8.Proofs.Cadence

set_option autoImplicit false

namespace Chip8

/-! ## Bare steps -/

namespace Machine

/-- A new machine with a program. -/
def loaded (now : Rat) (random : RandomStream) (image : List Rat) : Machine :=
  ((create now random).loadRom image).1

/-- The machine after some bare steps, three milliseconds apart, the first of them three
milliseconds after `start`. -/
def paced (m : Machine) (start : Int) : Nat → Machine
  | 0 => m
  | k + 1 => ((m.paced start k).step ((start + 3 * (k + 1 : Nat) : Int) : Rat)).1

/-- The fault of the bare step that follows `k` others, if it fails. -/
def pacedFault? (m : Machine) (start : Int) (k : Nat) : Option Fault :=
  (m.paced start k).fault? ((start + 3 * (k + 1 : Nat) : Int) : Rat)

/-- A display that has shown some frames, each the screen after as many bare steps as fit
into eleven milliseconds for every frame. -/
def frames (m : Machine) (start : Int) : Nat → Display
  | 0 => .idle
  | j + 1 => (m.frames start j).present (m.paced start (11 * (j + 1) / 3)).screen.cells

theorem paced_latch (m : Machine) (start : Int) (k : Nat) :
    (m.paced start k).latch = m.latch := by
  induction k with
  | zero => rfl
  | succ k ih => rw [paced, step_fst_latch, ih]

theorem presented_frames (m : Machine) (start : Int) (j : Nat) :
    (m.frames start j).presented = j := by
  induction j with
  | zero => rfl
  | succ j ih => rw [frames, Display.present, ih]

end Machine

namespace Host

/-! ## Runs without keys -/

section Quiet

variable {m : Machine} {start : Int} {n : Nat} {h : Host Unit}

theorem keepsClock_unit (source : Unit) : KeepsClock source :=
  ⟨fun _ => True, trivial, fun _ _ _ => ⟨rfl, trivial⟩⟩

/-- A host that has done what bare steps do, and has shown their screens. -/
structure Paced (m : Machine) (start : Int) (n : Nat) (h : Host Unit) : Prop where
  machine :
    h.machine = (m.paced start (n / 3)).flushed ((start + 11 * (n / 11 : Nat) : Int) : Rat)
  display : h.display = if h.settings.hasDisplay then m.frames start (n / 11) else .idle

namespace Paced

variable (paced : Paced m start n h) (empty : m.latch.key = none)

include paced empty

/-- Without keys an empty latch stays empty. -/
theorem machine_answered : (h.advance 1).answered.machine = h.machine := by
  have latch : h.machine.latch = m.latch := by
    rw [paced.machine]
    exact Machine.paced_latch m start (n / 3)
  have same := Latch.answered_none (l := h.machine.latch) (by rw [latch, empty])
    (h.advance 1).clock
  exact congrArg (fun latch => { h.machine with latch }) same

variable (onTime : OnTime start n h) (unfailed : h.fault = none)
  (low : -9007199254740992 ≤ start) (high : start + n < 9007199254740992)

include onTime unfailed low high

/-- Between its two phases a round has made one more bare step, if it is a third one. -/
theorem midRound_eq :
    h.midRound =
      (m.paced start ((n + 1) / 3)).flushed ((start + 11 * (n / 11 : Nat) : Int) : Rat) := by
  rw [onTime.midRound_eq low high unfailed, paced.machine_answered empty,
    paced.machine]
  split
  · have third : (n + 1) / 3 = n / 3 + 1 := by omega
    have time : (start + (n + 1 : Nat) : Int) = start + 3 * (n / 3 + 1 : Nat) := by omega
    rw [third, time, Machine.step_flushed]
    rfl
  · have other : (n + 1) / 3 = n / 3 := by omega
    rw [other]

/-- **A round does what bare steps do.** -/
theorem tick : Paced m start (n + 1) h.tick where
  machine :=
    onTime.tick_machine_of_flushed low high (paced.midRound_eq empty onTime unfailed low high)
  display := by
    rw [onTime.tick_display low high, h.tick_settings, paced.display,
      paced.midRound_eq empty onTime unfailed low high]
    cases h.settings.hasDisplay with
    | false => simp
    | true =>
      by_cases eleventh : (n + 1) % 11 = 0
      · have shown : (n + 1) / 11 = n / 11 + 1 := by omega
        have steps : (n + 1) / 3 = 11 * (n / 11 + 1) / 3 := by omega
        rw [shown, steps]
        simp [eleventh, Machine.frames, Machine.flushed, Screen.flushed]
      · have same : (n + 1) / 11 = n / 11 := by omega
        simp [eleventh, same]

/-- The fault of a round is that of its bare step. -/
theorem tick_fault :
    h.tick.fault = if (n + 1) % 3 = 0 then m.pacedFault? start (n / 3) else none := by
  rw [onTime.tick_fault low high unfailed, paced.machine_answered empty,
    paced.machine]
  split
  · have time : (start + (n + 1 : Nat) : Int) = start + 3 * (n / 3 + 1 : Nat) := by omega
    rw [time, Machine.fault?_flushed]
    rfl
  · rfl

end Paced

section Begin

variable (onTime : OnTime start 0 h) (paced : Paced m start 0 h) (empty : m.latch.key = none)
  (unfailed : h.fault = none) (low : -9007199254740992 ≤ start)

include onTime paced empty unfailed low

/-- While no bare step fails, the rounds do what the bare steps do. -/
theorem iterate_tick_paced (high : start + n < 9007199254740992)
    (succeed : ∀ k < n / 3, m.pacedFault? start k = none) :
    OnTime start n (tick^[n] h) ∧ Paced m start n (tick^[n] h) ∧ (tick^[n] h).fault = none := by
  induction n with
  | zero => exact ⟨onTime, paced, unfailed⟩
  | succ n ih =>
    obtain ⟨onTime, paced, unfailed⟩ := ih (by omega) fun k before => succeed k (by omega)
    rw [Function.iterate_succ_apply']
    refine ⟨onTime.tick low (by omega) unfailed,
      paced.tick empty onTime unfailed low (by omega), ?_⟩
    rw [paced.tick_fault empty onTime unfailed low (by omega)]
    split
    · exact succeed (n / 3) (by omega)
    · rfl

/-- The first bare step that fails is made in a round of its own, the last one. -/
theorem iterate_tick_fails {k : Nat} {fault : Fault}
    (high : start + 3 * (k + 1 : Nat) < 9007199254740992)
    (succeed : ∀ j < k, m.pacedFault? start j = none)
    (fails : m.pacedFault? start k = some fault) :
    OnTime start (3 * (k + 1)) (tick^[3 * (k + 1)] h) ∧
      Paced m start (3 * (k + 1)) (tick^[3 * (k + 1)] h) ∧
      (tick^[3 * (k + 1)] h).fault = some fault := by
  have before : (3 * k + 2) / 3 = k := by omega
  have third : (3 * k + 2 + 1) % 3 = 0 := by omega
  obtain ⟨onTime, paced, unfailed⟩ := iterate_tick_paced onTime paced empty unfailed low
    (n := 3 * k + 2) (by omega) (before.symm ▸ succeed)
  have fault := paced.tick_fault empty onTime unfailed low (by omega)
  rw [if_pos third, before, fails] at fault
  rw [show 3 * (k + 1) = 3 * k + 2 + 1 by omega, Function.iterate_succ_apply']
  exact ⟨onTime.tick low (by omega) unfailed,
    paced.tick empty onTime unfailed low (by omega), fault⟩

end Begin

/-- A host after `n` rounds without keys: it has executed so many instructions and may have
a fault, and its machine and frames are those of bare steps. -/
structure AfterRounds (settings : Settings) (m : Machine) (start : Int) (n executed : Nat)
    (fault : Option Fault) (h : Host Unit) : Prop where
  configured : h.settings = settings
  clock : h.clock = ((start + n : Int) : Rat)
  executed : h.executed = executed
  fault : h.fault = fault
  flushed : h.flushed = n / 11
  machine :
    h.machine = (m.paced start (n / 3)).flushed ((start + 11 * (n / 11 : Nat) : Int) : Rat)
  display : h.display = if settings.hasDisplay then m.frames start (n / 11) else .idle
  presented : settings.hasDisplay → h.display.presented = n / 11

theorem Paced.afterRounds (paced : Paced m start n h) (onTime : OnTime start n h)
    {settings : Settings} (configured : h.settings = settings) {executed : Nat}
    {fault : Option Fault} (faulted : h.fault = fault)
    (count : executed + fault.toList.length = n / 3) :
    AfterRounds settings m start n executed fault h where
  configured := configured
  clock := onTime.clock
  executed := by
    have tried := onTime.tried
    rw [faulted, ← count] at tried
    exact Nat.add_right_cancel tried
  fault := faulted
  flushed := onTime.flushed
  machine := paced.machine
  display := configured ▸ paced.display
  presented := by
    intro hasDisplay
    rw [paced.display, configured, if_pos hasDisplay, Machine.presented_frames]

theorem paced_create {settings : Settings} (shown : m.screen.lastFlushAt = (start : Rat)) :
    Paced m start 0 (create settings m (start : Rat) ()) where
  machine := by
    have here : ((start + 11 * (0 / 11 : Nat) : Int) : Rat) = m.screen.lastFlushAt :=
      (congrArg (fun time : Int => (time : Rat)) (Int.add_zero start)).trans shown.symm
    rw [here]
    rfl
  display := (ite_self Display.idle).symm

/-- **A run without keys is bare stepping.**  A new machine, run from an exact clock reading
for a number of milliseconds by a host that records its faults, makes bare step `k` when
the clock reads `3 * k` milliseconds more, and shows frame `j`, the screen after
`11 * j / 3` bare steps, when it reads `11 * j` more.  The run ends with its time over, or
in the round of the first bare step that fails.  With keys from a source that leaves the
clock alone, the rounds, the counts and the clock are the same as long as the same
instruction fails first, if any. -/
theorem runFor_is_bare_stepping {settings : Settings} (record : settings.mode = .record)
    (random : RandomStream) (image : List Rat) {start : Int} {ms : Nat}
    (low : -9007199254740992 ≤ start) (high : start + ms < 9007199254740992) :
    let m := Machine.loaded start random image
    let h : Host Unit := create settings m start ()
    (∀ n ≤ ms, (∀ k < n / 3, m.pacedFault? start k = none) →
      AfterRounds settings m start n (n / 3) none (tick^[n] h)) ∧
    ((∀ k < ms / 3, m.pacedFault? start k = none) → h.runFor ms = (tick^[ms] h, none)) ∧
    (∀ k fault, 3 * (k + 1) ≤ ms → (∀ j < k, m.pacedFault? start j = none) →
      m.pacedFault? start k = some fault →
        h.runFor ms = (tick^[3 * (k + 1)] h, none) ∧
          AfterRounds settings m start (3 * (k + 1)) k (some fault) (tick^[3 * (k + 1)] h)) ∧
    (∀ (σ : Type) [InputSource σ] (source : σ), KeepsClock source →
      let keyed := create settings m start source
      (keyed.runFor ms).1.failedAt? = (h.runFor ms).1.failedAt? →
        (keyed.runFor ms).1.executed = (h.runFor ms).1.executed ∧
          (keyed.runFor ms).1.flushed = (h.runFor ms).1.flushed ∧
          ∃ n ≤ ms, keyed.runFor ms = (tick^[n] keyed, none) ∧ h.runFor ms = (tick^[n] h, none) ∧
            ∀ k ≤ n, (tick^[k] keyed).clock = ((start + k : Int) : Rat) ∧
              (tick^[k] h).clock = ((start + k : Int) : Rat)) := by
  intro m h
  have empty : m.latch.key = none := rfl
  have onTime : OnTime start 0 h := onTime_create record rfl rfl (keepsClock_unit ())
  have paced : Paced m start 0 h := paced_create rfl
  have rounds : ∀ n ≤ ms, (∀ k < n / 3, m.pacedFault? start k = none) →
      OnTime start n (tick^[n] h) ∧ Paced m start n (tick^[n] h) ∧ (tick^[n] h).fault = none :=
    fun n within succeed => iterate_tick_paced onTime paced empty rfl low (by omega) succeed
  refine ⟨?_, ?_, ?_, ?_⟩
  · intro n within succeed
    obtain ⟨onTime, paced, unfailed⟩ := rounds n within succeed
    exact paced.afterRounds onTime (h.iterate_tick_settings n) unfailed (Nat.add_zero _)
  · intro succeed
    refine runFor_eq_iterate low high onTime (Nat.le_refl ms) ?_ (Or.inl rfl)
    intro j before
    exact (rounds j (Nat.le_of_lt before) fun k third => succeed k (by omega)).2.2
  · intro k fault within succeed fails
    obtain ⟨late, paced, failed⟩ :=
      iterate_tick_fails onTime paced empty rfl low (by omega) succeed fails
    refine ⟨runFor_eq_iterate low high onTime within ?_ ?_, ?_⟩
    · intro j before
      exact (rounds j (by omega) fun i third => succeed i (by omega)).2.2
    · exact Or.inr (by simp [failed])
    · exact paced.afterRounds late (h.iterate_tick_settings _) failed (by simp)
  · intro σ _ source keeps keyed same
    obtain ⟨n, within, run, kept, -, ended⟩ := runFor_onTime low high onTime
    obtain ⟨n', -, run', kept', -, ended'⟩ :=
      runFor_onTime low high (onTime_create (m := m) record rfl rfl keeps)
    rw [run, run'] at same ⊢
    obtain ⟨rounds, executed⟩ := (kept n (Nat.le_refl n)).counts ended
    obtain ⟨rounds', executed'⟩ := (kept' n' (Nat.le_refl n')).counts ended'
    rw [same] at rounds' executed'
    obtain rfl : n' = n := rounds'.trans rounds.symm
    refine ⟨executed'.trans executed.symm, ?_, n', within, rfl, rfl, ?_⟩
    · rw [(kept n' (Nat.le_refl n')).flushed]
      exact (kept' n' (Nat.le_refl n')).flushed
    · intro k before
      exact ⟨(kept' k before).clock, (kept k before).clock⟩

/-- Faults are recorded, frames are shown and nothing is logged. -/
def watched : Settings where
  mode := .record
  traceInterval := 0
  hasDisplay := true
  hostLevel := .silent
  machineLevel := .silent

/-- A program of four instructions and a word that stands for none. -/
def fourClears : List Rat := [0x00, 0xe0, 0x00, 0xe0, 0x00, 0xe0, 0x00, 0xe0, 0x00, 0x00]

/-- The fifth bare step fails, so the run ends after fifteen of a hundred milliseconds, with
four instructions executed and one frame shown. -/
theorem runFor_is_bare_stepping_fourClears :
    let m := Machine.loaded 1000 (RandomStream.cycle []) fourClears
    let h : Host Unit := create watched m 1000 ()
    h.runFor 100 = (tick^[15] h, none) ∧
      AfterRounds watched m 1000 15 4 (some (.invalidInstruction 0x208 0)) (tick^[15] h) := by
  have succeed : ∀ j < 4, (Machine.loaded 1000 (RandomStream.cycle []) fourClears).pacedFault?
      1000 j = none := by
    decide +kernel
  have fails : (Machine.loaded 1000 (RandomStream.cycle []) fourClears).pacedFault? 1000 4 =
      some (.invalidInstruction 0x208 0) := by
    decide +kernel
  have low : (-9007199254740992 : Int) ≤ 1000 := by decide
  have high : (1000 : Int) + (100 : Nat) < 9007199254740992 := by decide
  exact (runFor_is_bare_stepping (rfl : watched.mode = .record) (RandomStream.cycle []) fourClears
    low high).2.2.1 4 _ (by decide) succeed fails

/-- From far below the exact clock readings three milliseconds lead nowhere, and a run of
that time executes nothing, although the bare step would succeed. -/
theorem runFor_stuck :
    let start : Int := -1152921504606846976
    let m := Machine.loaded (start : Rat) (RandomStream.cycle []) [0x12, 0x00]
    start + (3 : Nat) < 9007199254740992 ∧ (∀ k < 3 / 3, m.pacedFault? start k = none) ∧
      ((create watched m (start : Rat) ()).runFor ((3 : Nat) : Rat)).1.executed ≠ 3 / 3 := by
  intro start m
  refine ⟨by decide, by decide +kernel, ?_⟩
  have ended : (create watched m (start : Rat) ()).running
      (Binary64.add (create watched m (start : Rat) ()).clock ((3 : Nat) : Rat)) = false := by
    decide +kernel
  rw [runFor, runUntil_of_not_running ended]
  decide

end Quiet

end Host

end Chip8
