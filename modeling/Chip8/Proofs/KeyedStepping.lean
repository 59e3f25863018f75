/-
# Chip8.Proofs.KeyedStepping -- a run with keys is stepping with the latch of its time

A source that leaves the clock alone is asked once in every millisecond, so what it says and
what the latch makes of it are known without the machine (`heard`).  `Machine.played` steps a
machine every three milliseconds, each time with the latch of that time.

A host that keeps time does the same (`Played`): after `n` rounds its machine is the one that
`n / 3` such steps leave.  A round keeps that (`Played.tick`), and a fault is that of a step
(`Played.tick_fault`).  So a run ends with its time over, or in the round of the first step
that fails: `runFor_played`.
-/
import Chip8.Proofs.Cadence

set_option autoImplicit false

namespace Chip8

/-! ## Stepping with keys -/

section Source

variable {σ : Type} [InputSource σ]

/-- A source and a latch after some milliseconds from `start` on, in each of which the source
is asked and the latch takes its answer. -/
def listened (source : σ) (latch : Latch) (start : Int) : Nat → σ × Latch
  | 0 => (source, latch)
  | n + 1 =>
    let (source, latch) := listened source latch start n
    let now : Rat := ((start + (n + 1 : Nat) : Int) : Rat)
    let answer := InputSource.ask source now
    (answer.source, latch.answered answer.key now)

/-- The latch after some milliseconds of listening. -/
def heard (source : σ) (latch : Latch) (start : Int) (n : Nat) : Latch :=
  (listened source latch start n).2

end Source

namespace Machine

/-- The machine with another latch. -/
def holding (m : Machine) (latch : Latch) : Machine := { m with latch }

/-- The machine after some steps, three milliseconds apart, the first of them three
milliseconds after `start`, each with the latch of its millisecond. -/
def played (m : Machine) (latches : Nat → Latch) (start : Int) : Nat → Machine
  | 0 => m
  | k + 1 =>
    (((m.played latches start k).holding (latches (3 * (k + 1)))).step
      ((start + 3 * (k + 1 : Nat) : Int) : Rat)).1

/-- A step leaves the latch as it was. -/
theorem holding_played (m : Machine) (latches : Nat → Latch) (start : Int) (k : Nat) :
    (m.played latches start (k + 1)).holding (latches (3 * (k + 1))) =
      m.played latches start (k + 1) := by
  have latch : (m.played latches start (k + 1)).latch = latches (3 * (k + 1)) :=
    step_fst_latch _ _
  rw [← latch]
  rfl

/-- The fault of the step that follows `k` others, if it fails. -/
def playedFault? (m : Machine) (latches : Nat → Latch) (start : Int) (k : Nat) : Option Fault :=
  ((m.played latches start k).holding (latches (3 * (k + 1)))).fault?
    ((start + 3 * (k + 1 : Nat) : Int) : Rat)

/-- How many steps precede the first that fails, if one fails within `ms` milliseconds. -/
def firstFault? (m : Machine) (latches : Nat → Latch) (start : Int) (ms : Nat) : Option Nat :=
  (List.range (ms / 3)).find? fun k => (m.playedFault? latches start k).isSome

theorem firstFault?_eq_none {m : Machine} {latches : Nat → Latch} {start : Int} {ms : Nat}
    (succeed : ∀ k < ms / 3, m.playedFault? latches start k = none) :
    m.firstFault? latches start ms = none := by
  rw [firstFault?, List.find?_range_eq_none]
  intro k before
  rw [succeed k before]
  rfl

theorem firstFault?_eq_some {m : Machine} {latches : Nat → Latch} {start : Int} {ms k : Nat}
    (within : k < ms / 3) (succeed : ∀ j < k, m.playedFault? latches start j = none)
    (fails : m.playedFault? latches start k ≠ none) :
    m.firstFault? latches start ms = some k := by
  rw [firstFault?, List.find?_range_eq_some]
  refine ⟨Option.isSome_iff_ne_none.mpr fails, List.mem_range.mpr within, ?_⟩
  intro j before
  rw [succeed j before]
  rfl

end Machine

namespace Host

variable {σ : Type} [InputSource σ]

/-- A host that has listened and stepped for `n` milliseconds. -/
structure Played (source : σ) (m : Machine) (start : Int) (n : Nat) (h : Host σ) : Prop where
  input : h.input = (listened source m.latch start n).1
  machine :
    h.machine =
      ((m.played (heard source m.latch start) start (n / 3)).holding
        (heard source m.latch start n)).flushed ((start + 11 * (n / 11 : Nat) : Int) : Rat)
  presented : h.settings.hasDisplay = true → h.display.presented = n / 11

namespace Played

variable {source : σ} {m : Machine} {start : Int} {n : Nat} {h : Host σ}
  (played : Played source m start n h) (onTime : OnTime start n h)
  (low : -9007199254740992 ≤ start) (high : start + n < 9007199254740992)

include played onTime low high

/-- The source is asked once more, and the latch takes its answer. -/
theorem listened_succ :
    (h.advance 1).answered.input = (listened source m.latch start (n + 1)).1 ∧
      (h.advance 1).answered.machine =
        h.machine.holding (heard source m.latch start (n + 1)) := by
  have clock := onTime.clock_answered low high
  have asked : (h.advance 1).answered.clock = (h.advance 1).clock :=
    onTime.keeps.clock_ask (h.advance 1).clock
  have now : (h.advance 1).clock = ((start + (n + 1 : Nat) : Int) : Rat) := asked.symm.trans clock
  have input : (h.advance 1).input = (listened source m.latch start n).1 := played.input
  have latch : h.machine.latch = heard source m.latch start n := by
    rw [played.machine]
    rfl
  have answer : InputSource.ask (h.advance 1).input (h.advance 1).clock =
      InputSource.ask (listened source m.latch start n).1
        ((start + (n + 1 : Nat) : Int) : Rat) := by rw [input, now]
  constructor
  · exact congrArg InputAnswer.source answer
  · show h.machine.holding (h.machine.latch.answered
      (InputSource.ask (h.advance 1).input (h.advance 1).clock).key
      (h.advance 1).answered.clock) = _
    rw [clock, answer, latch]
    rfl

/-- The machine of a round before its step phase. -/
theorem machine_answered :
    (h.advance 1).answered.machine =
      ((m.played (heard source m.latch start) start (n / 3)).holding
        (heard source m.latch start (n + 1))).flushed
          ((start + 11 * (n / 11 : Nat) : Int) : Rat) := by
  rw [(played.listened_succ onTime low high).2, played.machine]
  rfl

variable (unfailed : h.fault = none)

include unfailed

/-- Between its two phases a round has made one more step, if it is a third one. -/
theorem midRound_eq :
    h.midRound =
      ((m.played (heard source m.latch start) start ((n + 1) / 3)).holding
        (heard source m.latch start (n + 1))).flushed
          ((start + 11 * (n / 11 : Nat) : Int) : Rat) := by
  rw [onTime.midRound_eq low high unfailed, played.machine_answered onTime low high]
  split
  · have third : (n + 1) / 3 = n / 3 + 1 := by omega
    have round : n + 1 = 3 * (n / 3 + 1) := by omega
    have time : (start + (n + 1 : Nat) : Int) = start + 3 * (n / 3 + 1 : Nat) := by omega
    rw [third, time, Machine.step_flushed, round, Machine.holding_played]
    rfl
  · have other : (n + 1) / 3 = n / 3 := by omega
    rw [other]

/-- **A round does what a step with its latch does.** -/
theorem tick : Played source m start (n + 1) h.tick where
  input := by
    rw [tick_of_record onTime.mode, (flushPhase_frame _).2.2.1, (stepPhase_frame _).2.2.1]
    exact (played.listened_succ onTime low high).1
  machine :=
    onTime.tick_machine_of_flushed low high (played.midRound_eq onTime low high unfailed)
  presented := by
    rw [onTime.tick_display low high, h.tick_settings]
    intro hasDisplay
    have before := played.presented hasDisplay
    split
    · show h.display.presented + 1 = (n + 1) / 11
      omega
    · rename_i other
      rw [before]
      simp only [hasDisplay, and_true] at other
      omega

/-- The fault of a round is that of its step. -/
theorem tick_fault :
    h.tick.fault =
      if (n + 1) % 3 = 0 then m.playedFault? (heard source m.latch start) start (n / 3)
      else none := by
  rw [onTime.tick_fault low high unfailed, played.machine_answered onTime low high]
  split
  · have round : n + 1 = 3 * (n / 3 + 1) := by omega
    have time : (start + (n + 1 : Nat) : Int) = start + 3 * (n / 3 + 1 : Nat) := by omega
    rw [time, Machine.fault?_flushed, Machine.playedFault?, ← round]
  · rfl

end Played

/-! ## Runs with keys -/

section Run

variable {source : σ} {m : Machine} {start : Int} {ms : Nat} {h : Host σ}

/-- The rounds of a run do what steps do, up to the first fault. -/
theorem Played.iterate_tick (played : Played source m start 0 h) {n : Nat}
    (low : -9007199254740992 ≤ start) (high : start + n < 9007199254740992)
    (kept : ∀ j ≤ n, OnTime start j (Host.tick^[j] h))
    (clean : ∀ j < n, (Host.tick^[j] h).fault = none) :
    Played source m start n (Host.tick^[n] h) := by
  induction n with
  | zero => exact played
  | succ n ih =>
    have before := ih (by omega) (fun j less => kept j (by omega)) fun j less => clean j (by omega)
    rw [Function.iterate_succ_apply']
    exact before.tick (kept n (by omega)) low (by omega) (clean n (by omega))

/-- A third round has the fault of its step. -/
theorem Played.iterate_tick_fault (played : Played source m start 0 h) {k : Nat}
    (low : -9007199254740992 ≤ start) (high : start + 3 * (k + 1 : Nat) < 9007199254740992)
    (kept : ∀ j ≤ 3 * (k + 1), OnTime start j (Host.tick^[j] h))
    (clean : ∀ j < 3 * (k + 1), (Host.tick^[j] h).fault = none) :
    (Host.tick^[3 * (k + 1)] h).fault = m.playedFault? (heard source m.latch start) start k := by
  have last : 3 * (k + 1) = 3 * k + 2 + 1 := by omega
  have before : (3 * k + 2) / 3 = k := by omega
  have played' := played.iterate_tick (n := 3 * k + 2) low (by omega)
    (fun j less => kept j (by omega)) fun j less => clean j (by omega)
  have fault := played'.tick_fault (kept _ (by omega)) low (by omega) (clean _ (by omega))
  rw [last, Function.iterate_succ_apply', fault, if_pos (by omega), before]

/-- How a run of `ms` milliseconds ends after `n` rounds: its time is over and no step has
failed, or a step has failed in the last round. -/
structure RunEnds (source : σ) (m : Machine) (start : Int) (ms n : Nat) (left : Host σ) :
    Prop where
  onTime : OnTime start n left
  played : Played source m start n left
  rounds : n = ((m.firstFault? (heard source m.latch start) start ms).map
    fun k => 3 * (k + 1)).getD ms
  fault : left.fault.isSome = (m.firstFault? (heard source m.latch start) start ms).isSome

/-- **A run with keys is stepping with the latch of its time**, up to its end or the first
step that fails. -/
theorem runFor_played (onTime : OnTime start 0 h) (played : Played source m start 0 h)
    (unfailed : h.fault = none) (low : -9007199254740992 ≤ start)
    (high : start + ms < 9007199254740992) :
    ∃ n left, h.runFor ms = (left, none) ∧ left.settings = h.settings ∧
      RunEnds source m start ms n left := by
  obtain ⟨n, within, run, kept, clean, ended⟩ := runFor_onTime low high onTime
  have thirds : ∀ k, 3 * (k + 1) ≤ n →
      (Host.tick^[3 * (k + 1)] h).fault = m.playedFault? (heard source m.latch start) start k := by
    intro k third
    exact played.iterate_tick_fault low (by omega) (fun j le => kept j (by omega)) fun j less =>
      clean j (by omega)
  have succeed : ∀ k, 3 * (k + 1) < n →
      m.playedFault? (heard source m.latch start) start k = none := by
    intro k third
    rw [← thirds k (by omega), clean _ third]
  have configured := h.iterate_tick_settings n
  have late := kept n (Nat.le_refl n)
  have stepped := played.iterate_tick low (by omega) kept clean
  cases failed : (Host.tick^[n] h).fault with
  | none =>
    have all : n = ms := ended.resolve_right (by simp [failed])
    have first : m.firstFault? (heard source m.latch start) start ms = none := by
      apply Machine.firstFault?_eq_none
      intro k third
      rcases Nat.lt_or_eq_of_le (show 3 * (k + 1) ≤ n by omega) with earlier | last
      · exact succeed k earlier
      · rw [← thirds k (by omega), last, failed]
    exact ⟨n, _, run, configured, late, stepped, by rw [first]; exact all,
      by rw [first, failed]; rfl⟩
  | some fault =>
    have third := late.halts (by simp [failed])
    have begun : n ≠ 0 := by
      rintro rfl
      rw [Function.iterate_zero, id_eq, unfailed] at failed
      cases failed
    obtain ⟨k, rfl⟩ : ∃ k, n = 3 * (k + 1) := ⟨n / 3 - 1, by omega⟩
    have first : m.firstFault? (heard source m.latch start) start ms = some k := by
      apply Machine.firstFault?_eq_some (by omega) fun j less => succeed j (by omega)
      rw [← thirds k (Nat.le_refl _), failed]
      exact Option.some_ne_none fault
    exact ⟨_, _, run, configured, late, stepped, by rw [first]; rfl,
      by rw [first, failed]; rfl⟩

end Run

end Host

end Chip8
