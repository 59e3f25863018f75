/-
# Chip8.Proofs.DelayCountdown -- a timer nobody ticks counts like one that is ticked

The delay timer keeps the value it was set to and the time of that.  Beside it stands a
counter that is told of every millisecond and takes one off after each sixteen
(`Countdown.millisecond`).  Both are given the same calls.  A call keeps them in step, if it
moves the clock by just the time it says (`InStep.call`); so they answer every reading alike
(`InStep.answers_eq`), as they do between whole readings of at most `2 ^ 53` in size
(`exactlyTimed_of_intCast`).

Where the clock loses a little in moving, the timer ticks late by the counter's time
(`counted_late`), though not by that of the clock.  Still no call sets the clock back
(`Regular.after`), so readings fall until the timer is set again (`Regular.reads_fall`).
`counts_down` puts these together.
-/
import Chip8.Proofs.TimerReadings
import Mathlib.Logic.Function.Iterate

set_option autoImplicit false

namespace Chip8

/-! ## A counter of milliseconds -/

/-- What is left of a value, and the milliseconds since the last tick. -/
structure Countdown where
  left : Nat
  phase : Nat
deriving DecidableEq

namespace Countdown

/-- A counter that starts now. -/
def start (value : Nat) : Countdown := { left := value, phase := 0 }

/-- A millisecond passes: the sixteenth takes one off, if there is one left. -/
def millisecond (k : Countdown) : Countdown :=
  if k.phase = 15 then { left := k.left - 1, phase := 0 } else { k with phase := k.phase + 1 }

theorem iterate_millisecond (value ms : Nat) :
    millisecond^[ms] (start value) = { left := value - ms / 16, phase := ms % 16 } := by
  induction ms with
  | zero => rfl
  | succ ms ih =>
    rw [Function.iterate_succ_apply', ih]
    simp only [millisecond]
    split
    · rename_i sixteenth
      have left : value - ms / 16 - 1 = value - (ms + 1) / 16 := by omega
      have phase : 0 = (ms + 1) % 16 := by omega
      simp only [left, ← phase]
    · rename_i within
      have left : value - ms / 16 = value - (ms + 1) / 16 := by omega
      have phase : ms % 16 + 1 = (ms + 1) % 16 := by omega
      simp only [left, phase]

end Countdown

/-! ## Calls -/

/-- What is done to a timer and its clock. -/
inductive TimerCall where
  | advance (ms : Nat)
  | set (value : Int)
  | get
deriving DecidableEq

namespace TimerCall

/-- The milliseconds that a call lets pass. -/
def duration : TimerCall → Nat
  | advance ms => ms
  | set _ | get => 0

/-- The answers to the readings among some calls, given what a call does and what is read. -/
def answers {σ α : Type} (call : σ → TimerCall → σ) (read : σ → α) : σ → List TimerCall → List α
  | _, [] => []
  | s, get :: calls => read s :: answers call read s calls
  | s, advance ms :: calls => answers call read (call s (advance ms)) calls
  | s, set value :: calls => answers call read (call s (set value)) calls

end TimerCall

namespace Countdown

def call (k : Countdown) : TimerCall → Countdown
  | .advance ms => millisecond^[ms] k
  | .set value => start (value % 256).toNat
  | .get => k

/-- The values that the readings among some calls are answered with. -/
def answers : Countdown → List TimerCall → List Nat := TimerCall.answers call left

end Countdown

/-- A timer and the clock it reads. -/
structure Timing where
  timer : Timer
  now : Rat
deriving DecidableEq

namespace Timing

/-- A new timer. -/
def create (now : Rat) : Timing := { timer := Timer.create now, now }

def call (s : Timing) : TimerCall → Timing
  | .advance ms => { s with now := Binary64.add s.now ms }
  | .set value => { s with timer := Timer.set value s.now }
  | .get => s

def after (s : Timing) (calls : List TimerCall) : Timing := calls.foldl call s

def read (s : Timing) : Option Nat := (s.timer.read s.now).map UInt8.toNat

/-- What the readings among some calls are answered with, if they are. -/
def answers : Timing → List TimerCall → List (Option Nat) := TimerCall.answers call read

/-- Whether a call moves the clock by the time it says, to a finite reading. -/
def Exact (s : Timing) : TimerCall → Prop
  | .advance ms =>
    Binary64.add s.now ms = s.now + ms ∧ Binary64.beyondRange (s.now + ms) = false
  | .set _ | .get => True

/-- Whether all of some calls do. -/
def ExactlyTimed : Timing → List TimerCall → Prop
  | _, [] => True
  | s, c :: calls => s.Exact c ∧ (s.call c).ExactlyTimed calls

theorem read_eq {s : Timing} (set : Binary64.beyondRange s.timer.setAt = false)
    (finite : Binary64.beyondRange s.now = false) :
    s.read = some (Timer.leftAfter s.timer.value.toNat
      (Binary64.round (s.now - s.timer.setAt))) := by
  have small : s.timer.value.toNat < UInt8.size := s.timer.value.toNat_lt
  have most := Timer.leftAfter_le s.timer.value.toNat (Binary64.round (s.now - s.timer.setAt))
  rw [read, Timer.read_eq set finite, Option.map_some, UInt8.toNat_ofNat_of_lt' (by omega)]

/-- What a timer reads that was set at another reading of the clock. -/
theorem read_set {since now : Rat} (value : Int) (set : Binary64.beyondRange since = false)
    (finite : Binary64.beyondRange now = false) :
    { timer := Timer.set value since, now : Timing }.read =
      some (Timer.leftAfter (value % 256).toNat (Binary64.round (now - since))) := by
  rw [← toNat_wrapByte_intCast]
  exact read_eq (s := { timer := Timer.set value since, now }) set finite

/-! ## In step -/

/-- A timer and a counter that have counted the same milliseconds since the timer was set. -/
structure InStep (s : Timing) (k : Countdown) : Prop where
  set : Binary64.beyondRange s.timer.setAt = false
  finite : Binary64.beyondRange s.now = false
  counted : ∃ ms : Nat, s.now = s.timer.setAt + ms ∧
    k = Countdown.millisecond^[ms] (Countdown.start s.timer.value.toNat)

section Steps

variable {s : Timing} {k : Countdown}

/-- A timer and a counter in step answer alike. -/
theorem InStep.read_eq (inStep : InStep s k) : s.read = some k.left := by
  obtain ⟨ms, now, rfl⟩ := inStep.counted
  have passed : s.now - s.timer.setAt = (ms : Rat) := by rw [now, add_sub_cancel_left]
  rw [Timing.read_eq inStep.set inStep.finite, Countdown.iterate_millisecond, passed,
    Timer.leftAfter_round_natCast s.timer.value.toNat_lt]

/-- **A call keeps them in step**, if it moves the clock exactly. -/
theorem InStep.call {c : TimerCall} (inStep : InStep s k) (exact : s.Exact c) :
    InStep (s.call c) (k.call c) := by
  cases c with
  | get => exact inStep
  | advance ms =>
    obtain ⟨sum, finite⟩ := exact
    obtain ⟨passed, now, rfl⟩ := inStep.counted
    refine ⟨inStep.set, ?_, ms + passed, ?_, ?_⟩
    · rwa [Timing.call, sum]
    · rw [Timing.call, sum, now]
      push_cast
      ring
    · exact (Function.iterate_add_apply _ _ _ _).symm
  | set value =>
    refine ⟨inStep.finite, inStep.finite, 0, ?_, ?_⟩
    · exact (add_zero s.now).symm
    · rw [Countdown.call, ← toNat_wrapByte_intCast]
      rfl

/-- **So they answer every reading alike.** -/
theorem InStep.answers_eq {calls : List TimerCall} (inStep : InStep s k)
    (exact : s.ExactlyTimed calls) : s.answers calls = (k.answers calls).map some := by
  induction calls generalizing s k with
  | nil => rfl
  | cons c calls ih =>
    obtain ⟨first, rest⟩ := exact
    have answers := ih (inStep.call first) rest
    cases c with
    | advance ms => exact answers
    | set value => exact answers
    | get =>
      change s.read :: s.answers calls = some k.left :: (k.answers calls).map some
      rw [inStep.read_eq]
      exact congrArg _ answers

theorem inStep_create {start : Rat} (finite : Binary64.beyondRange start = false) :
    InStep (create start) (Countdown.start 0) :=
  ⟨finite, finite, 0, (add_zero start).symm, rfl⟩

end Steps

/-- Whole readings of at most `2 ^ 53` in size are exact. -/
theorem exactlyTimed_of_intCast {s : Timing} {start : Int} {calls : List TimerCall}
    (now : s.now = start) (low : -9007199254740992 ≤ start)
    (high : start + (calls.map TimerCall.duration).sum ≤ 9007199254740992) :
    s.ExactlyTimed calls := by
  induction calls generalizing s start with
  | nil => trivial
  | cons c calls ih =>
    rw [List.map_cons, List.sum_cons] at high
    cases c with
    | advance ms =>
      rw [TimerCall.duration] at high
      have sum : Binary64.add s.now ms = ((start + ms : Int) : Rat) := by
        rw [now]
        exact Binary64.add_exact low (by omega)
      have plain : s.now + ms = ((start + ms : Int) : Rat) := by
        rw [now]
        push_cast
        rfl
      refine ⟨⟨sum.trans plain.symm, ?_⟩, ih sum (by omega) (by omega)⟩
      rw [plain]
      exact Binary64.beyondRange_exact (by omega) (by omega)
    | set value => exact ⟨trivial, ih now low (by simpa [TimerCall.duration] using high)⟩
    | get => exact ⟨trivial, ih now low (by simpa [TimerCall.duration] using high)⟩

/-! ## Any clock -/

/-- Times on the grid. -/
structure Regular (s : Timing) : Prop where
  set : Binary64.beyondRange s.timer.setAt = false
  finite : Binary64.beyondRange s.now = false
  grid : Binary64.OnGrid s.now

section Regular

variable {s : Timing}

theorem regular_create {start : Rat} (grid : Binary64.OnGrid start)
    (finite : Binary64.beyondRange start = false) : Regular (create start) :=
  ⟨finite, finite, grid⟩

theorem Regular.call {c : TimerCall} (regular : Regular s)
    (finite : Binary64.beyondRange (s.call c).now = false) :
    Regular (s.call c) ∧ s.now ≤ (s.call c).now := by
  cases c with
  | advance ms =>
    obtain ⟨-, later, grid⟩ := Binary64.add_natCast_spec regular.grid finite
    exact ⟨⟨regular.set, finite, grid⟩, later⟩
  | set value => exact ⟨⟨regular.finite, regular.finite, regular.grid⟩, le_rfl⟩
  | get => exact ⟨regular, le_rfl⟩

/-- An infinite reading stays. -/
theorem after_now_of_beyondRange (calls : List TimerCall)
    (beyond : Binary64.beyondRange s.now = true) : (s.after calls).now = s.now := by
  induction calls generalizing s with
  | nil => rfl
  | cons c calls ih =>
    have now : (s.call c).now = s.now := by
      cases c with
      | advance ms => rw [Timing.call, Binary64.add, if_pos beyond]
      | set value | get => rfl
    rw [after, List.foldl_cons]
    exact (ih (by rwa [now])).trans now

theorem finite_of_after {calls : List TimerCall}
    (finite : Binary64.beyondRange (s.after calls).now = false) :
    Binary64.beyondRange s.now = false := by
  rw [Bool.eq_false_iff]
  intro beyond
  rw [after_now_of_beyondRange calls beyond, beyond] at finite
  cases finite

/-- **No call sets the clock back.** -/
theorem Regular.after {calls : List TimerCall} (regular : Regular s)
    (finite : Binary64.beyondRange (s.after calls).now = false) :
    Regular (s.after calls) ∧ s.now ≤ (s.after calls).now := by
  induction calls generalizing s with
  | nil => exact ⟨regular, le_rfl⟩
  | cons c calls ih =>
    obtain ⟨next, later⟩ := regular.call (finite_of_after (s := s.call c) finite)
    obtain ⟨last, latest⟩ := ih next finite
    exact ⟨last, later.trans latest⟩

theorem after_timer {calls : List TimerCall} (unset : ∀ value, .set value ∉ calls) :
    (s.after calls).timer = s.timer := by
  induction calls generalizing s with
  | nil => rfl
  | cons c calls ih =>
    have rest : (s.call c).timer = s.timer := by
      cases c with
      | advance ms | get => rfl
      | set value => exact absurd List.mem_cons_self (unset value)
    rw [after, List.foldl_cons]
    exact (ih fun value listed => unset value (List.mem_cons_of_mem _ listed)).trans rest

/-- Readings fall until the timer is set. -/
theorem Regular.reads_fall {calls : List TimerCall} (regular : Regular s)
    (unset : ∀ value, .set value ∉ calls)
    (finite : Binary64.beyondRange (s.after calls).now = false) :
    ∃ early late, s.read = some early ∧ (s.after calls).read = some late ∧ late ≤ early := by
  obtain ⟨last, later⟩ := regular.after finite
  refine ⟨_, _, read_eq regular.set regular.finite, read_eq last.set last.finite, ?_⟩
  rw [after_timer unset]
  exact (Timer.countsDown_leftAfter s.timer.value.toNat_lt s.timer.setAt).falls _ _ later

end Regular

/-- Readings leave no trace. -/
theorem after_filter_get (s : Timing) (calls : List TimerCall) :
    s.after (calls.filter (· ≠ .get)) = s.after calls := by
  induction calls generalizing s with
  | nil => rfl
  | cons c calls ih =>
    cases c with
    | advance ms | set value => exact ih _
    | get => exact ih s

/-- **The timer is a counter of milliseconds.**  Made at any finite time and called in any way
that moves its clock exactly, as it does between whole readings of at most `2 ^ 53` in size, it
answers every reading as the counter does that is loaded by each setting and ticks after each
sixteen milliseconds.  However the clock may run, a timer counts down from the value it was set
to, by finite readings; the calls of a clock on the grid never turn a reading up; and readings
leave no trace. -/
theorem counts_down :
    (∀ start : Rat, Binary64.beyondRange start = false → ∀ calls : List TimerCall,
      ((create start).ExactlyTimed calls →
        (create start).answers calls = ((Countdown.start 0).answers calls).map some) ∧
      (∀ whole : Int, start = whole → -9007199254740992 ≤ whole →
        whole + (calls.map TimerCall.duration).sum ≤ 9007199254740992 →
          (create start).ExactlyTimed calls)) ∧
    (∀ since : Rat, Binary64.beyondRange since = false → ∀ value : Int, ∃ left : Rat → Nat,
      Timer.CountsDown (value % 256).toNat since left ∧
        ∀ now, Binary64.beyondRange now = false →
          { timer := Timer.set value since, now : Timing }.read = some (left now)) ∧
    (∀ start : Rat, Binary64.OnGrid start → ∀ calls later : List TimerCall,
      (∀ value, .set value ∉ later) →
        Binary64.beyondRange ((create start).after (calls ++ later)).now = false →
          ∃ before after, ((create start).after calls).read = some before ∧
            ((create start).after (calls ++ later)).read = some after ∧ after ≤ before) ∧
    ∀ (s : Timing) (calls : List TimerCall),
      s.after (calls.filter (· ≠ .get)) = s.after calls := by
  refine ⟨?_, ?_, ?_, after_filter_get⟩
  · intro start finite calls
    refine ⟨(inStep_create finite).answers_eq, ?_⟩
    intro whole same low high
    exact exactlyTimed_of_intCast same low high
  · intro since finite value
    refine ⟨_, Timer.countsDown_leftAfter (by omega) since, ?_⟩
    intro now finite'
    exact read_set value finite finite'
  · intro start grid calls later unset finite
    have split : (create start).after (calls ++ later) = ((create start).after calls).after later :=
      List.foldl_append
    rw [split] at finite ⊢
    have near := finite_of_after finite
    have finite' : Binary64.beyondRange start = false := finite_of_after (s := create start) near
    obtain ⟨regular, -⟩ := (regular_create grid finite').after near
    exact regular.reads_fall unset finite

/-- A timer made at 1000, read and set again; one whose clock is moved back; and one made between
two milliseconds, which falls all the same. -/
theorem counts_down_asRead :
    (create 1000).answers [.get, .set 5, .get, .advance 16, .get, .advance 64, .get, .set 261, .get] =
        [some 0, some 5, some 4, some 0, some 5] ∧
      { timer := Timer.set 5 1000, now := 990 : Timing }.read = some 5 ∧
      ∃ before after, ((create (3 / 8)).after [.set 5]).read = some before ∧
        ((create (3 / 8)).after [.set 5, .advance 16]).read = some after ∧ after ≤ before := by
  have finite : Binary64.beyondRange 1000 = false :=
    Binary64.beyondRange_of_le_exactLimit (by norm_num) (by norm_num)
  refine ⟨?_, ?_, ?_⟩
  · obtain ⟨alike, exact⟩ := counts_down.1 1000 finite
      [.get, .set 5, .get, .advance 16, .get, .advance 64, .get, .set 261, .get]
    rw [alike (exact 1000 (by norm_num) (by decide) (by decide))]
    decide +kernel
  · obtain ⟨left, falls, reads⟩ := counts_down.2.1 1000 finite 5
    have finite' : Binary64.beyondRange 990 = false :=
      Binary64.beyondRange_of_le_exactLimit (by norm_num) (by norm_num)
    exact (reads 990 finite').trans (congrArg some (falls.full 990 (by norm_num)))
  · exact counts_down.2.2.1 (3 / 8) ⟨3, -3, by decide, by decide, by norm_num⟩ [.set 5] [.advance 16]
      (by simp) (by decide +kernel)

/-- **A tick may come late.**  A timer is made at the number nearest to 0.4 and set to 5; the
clock, told to move by 16 milliseconds, loses a little in rounding, and so the timer still reads
5 where the counter has ticked. -/
theorem counted_late :
    let start : Rat := 3602879701896397 / 9007199254740992
    let calls := [.set 5, .advance 16, .get]
    Binary64.OnGrid start ∧ Binary64.beyondRange start = false ∧
      (create start).answers calls = [some 5] ∧ (Countdown.start 0).answers calls = [4] := by
  refine ⟨⟨3602879701896397, -53, by decide, by decide, by norm_num⟩, ?_, ?_, ?_⟩ <;> decide +kernel

end Timing

end Chip8
