/-
# Chip8.Proofs.ShortTap -- a short tap is seen

A key that is pressed once is latched for 200 milliseconds, and in that time a program gets to
execute 66 instructions.  Neither depends on when the tap comes: the step phase keeps its own
time, and the press may fall anywhere between two instructions.

`InPace` is what a round keeps of that time.  An instruction tried at a reading leaves the next
one due three milliseconds later, so that up to any reading a third of the rounds since the tap
have tried one, less the part of an interval that was left when it came (`InPace.tick`).

A run from any whole number is covered, also one whose clock readings are rounded.  Where a
millisecond is rounded away or doubled there are no 200 readings in a row: of two whole numbers
that follow each other one is odd, and no odd number beyond `2 ^ 53` can be read
(`Readings.exact`).  So a window of such readings is exact, and the rounds that read it follow
each other (`Readings.window`).
-/
import Chip8.Proofs.BusyRounds
import Chip8.Proofs.Footprint
import Chip8.Proofs.ScriptedKeys

set_option autoImplicit false

namespace Chip8

/-! ## Readings a millisecond apart -/

namespace Binary64

/-- Readings of a clock that is moved on by a millisecond each time. -/
def Readings (X : Nat → Rat) : Prop := ∀ k, X (k + 1) = add (X k) 1

/-- A millisecond passes on a finite clock, and on no other. -/
theorem add_one_cases (x : Rat) :
    (beyondRange x = true ∧ add x 1 = x) ∨ (beyondRange x = false ∧ add x 1 = round (x + 1)) := by
  have one : beyondRange 1 = false := beyondRange_of_le_exactLimit (by norm_num) (by norm_num)
  cases beyond : beyondRange x with
  | true => exact Or.inl ⟨rfl, by rw [add, beyond, if_pos rfl]⟩
  | false => exact Or.inr ⟨rfl, by simp [add, beyond, one]⟩

/-- A reading up to an exact one follows one that is no later. -/
theorem le_of_add_one_le {x : Rat} {t : Int} (low : -9007199254740992 ≤ t + 1)
    (high : t + 1 ≤ 9007199254740992) (le : add x 1 ≤ t)
    (finite : beyondRange (add x 1) = false) : x ≤ t ∧ beyondRange x = false := by
  rcases add_one_cases x with ⟨beyond, same⟩ | ⟨inside, rounded⟩
  · rw [same, beyond] at finite
    cases finite
  · refine ⟨?_, inside⟩
    by_contra late
    -- from beyond the exact reading the next millisecond leads to its successor at least
    have next : ((t + 1 : Int) : Rat) ≤ round (x + 1) := by
      apply intCast_le_round
      · rw [exactLimit]
        omega
      · push_cast
        linarith
    rw [rounded] at le
    push_cast at next
    linarith

namespace Readings

variable {X : Nat → Rat} (readings : Readings X)

include readings

/-- **Two readings that follow each other are exact.** -/
theorem exact {d : Int} {i j : Nat} (here : X (i + 1) = d) (next : X (j + 1) = ((d + 1 : Int) : Rat)) :
    -9007199254740992 ≤ d ∧ d + 1 ≤ 9007199254740992 := by
  cases beyond : beyondRange (X 0) with
  | true =>
    -- such a clock stands still
    have still : ∀ k, X k = X 0 := by
      intro k
      induction k with
      | zero => rfl
      | succ k ih =>
        rw [readings, ih]
        exact if_pos beyond
    rw [still] at here next
    have same : d = d + 1 := by exact_mod_cast here.symm.trans next
    omega
  | false =>
    have grid : ∀ k, OnGrid (X (k + 1)) := by
      intro k
      induction k with
      | zero =>
        rw [readings]
        rcases add_one_cases (X 0) with ⟨beyond', -⟩ | ⟨-, rounded⟩
        · rw [beyond] at beyond'
          cases beyond'
        · rw [rounded]
          exact onGrid_round _
      | succ k ih =>
        rw [readings]
        rcases add_one_cases (X (k + 1)) with ⟨-, same⟩ | ⟨-, rounded⟩
        · rw [same]
          exact ih
        · rw [rounded]
          exact onGrid_round _
    exact exact_of_onGrid (here ▸ grid i) (next ▸ grid j)

/-- Before a reading up to an exact one there is no later one. -/
theorem earlier {t : Int} (low : -9007199254740992 ≤ t + 1) (high : t + 1 ≤ 9007199254740992)
    {i k : Nat} (le : i ≤ k) (upTo : X k ≤ t) (finite : beyondRange (X k) = false) :
    X i ≤ t ∧ beyondRange (X i) = false := by
  obtain ⟨j, rfl⟩ := Nat.exists_eq_add_of_le le
  clear le
  induction j with
  | zero => exact ⟨upTo, finite⟩
  | succ j ih =>
    rw [← Nat.add_assoc, readings] at upTo finite
    obtain ⟨upTo, finite⟩ := le_of_add_one_le low high upTo finite
    exact ih upTo finite

/-- After an exact reading the clock goes on by whole milliseconds, while it is exact. -/
theorem later {d : Int} {i : Nat} (here : X i = d) (low : -9007199254740992 ≤ d) (j : Nat)
    (high : d + j ≤ 9007199254740992) : X (i + j) = ((d + j : Int) : Rat) := by
  induction j with
  | zero =>
    rw [reading_zero]
    exact here
  | succ j ih =>
    rw [← Nat.add_assoc, readings, ih (by omega), Int.natCast_succ, ← Int.add_assoc]
    exact @add_exact _ 1 (by omega) (by omega)

/-- **A window of readings in a row is read in a row.** -/
theorem window {d : Int} {a n : Nat} (first : X (a + 1) = d)
    (made : ∀ t : Int, d ≤ t → t ≤ d + 199 → ∃ k < n, X (k + 1) = t) :
    -9007199254740992 ≤ d ∧ d + 199 ≤ 9007199254740992 ∧ a + 200 ≤ n ∧
      (∀ j : Nat, j < 200 → X (a + 1 + j) = ((d + j : Int) : Rat)) ∧
      ∀ k ≤ a, X k ≤ d ∧ beyondRange (X k) = false := by
  have follow : ∀ j : Nat, j < 199 →
      -9007199254740992 ≤ d + j ∧ d + j + 1 ≤ 9007199254740992 := by
    intro j small
    obtain ⟨i, -, here⟩ := made (d + j) (by omega) (by omega)
    obtain ⟨i', -, next⟩ := made (d + j + 1) (by omega) (by omega)
    exact readings.exact here next
  obtain ⟨low, high⟩ := follow 0 (by decide)
  obtain ⟨low', high'⟩ := follow 198 (by decide)
  have row : ∀ j : Nat, j < 200 → X (a + 1 + j) = ((d + j : Int) : Rat) := fun j small =>
    readings.later first (by omega) j (by omega)
  refine ⟨by omega, by omega, ?_, row, ?_⟩
  · obtain ⟨k, inTime, last⟩ := made (d + 199) (by omega) (le_refl _)
    by_contra short
    -- a round before the last but one of the window reads less than its last reading
    have before : X (a + 1 + 198) = ((d + 198 : Int) : Rat) := row 198 (by decide)
    have finite : beyondRange (X (a + 1 + 198)) = false := by
      rw [before]
      exact beyondRange_exact (by omega) (by omega)
    obtain ⟨less, -⟩ := readings.earlier (t := d + 198) (by omega) (by omega)
      (by omega : k + 1 ≤ a + 1 + 198) before.le finite
    rw [last] at less
    have order : d + 199 ≤ d + 198 := by exact_mod_cast less
    omega
  · intro k le
    have finite : beyondRange (X (a + 1)) = false := by
      rw [first]
      exact beyondRange_exact (by omega) (by omega)
    exact readings.earlier (by omega) (by omega) (by omega : k ≤ a + 1) first.le finite

end Readings

end Binary64

/-- An instruction is due three milliseconds after the last. -/
theorem Machine.canStep_of_later {m : Machine} {now : Rat}
    (finite : Binary64.beyondRange m.lastStepAt = false)
    (finite' : Binary64.beyondRange now = false) (late : m.lastStepAt + 3 ≤ now) :
    m.canStep now = true := by
  have apart : ((3 : Int) : Rat) ≤ Binary64.round (now - m.lastStepAt) := by
    apply Binary64.intCast_le_round (by decide)
    push_cast
    linarith
  have more : (stepInterval : Rat) < Binary64.round (now - m.lastStepAt) := by
    rw [stepInterval]
    push_cast at apart
    linarith
  simp [canStep, Binary64.sub?, finite, finite', more]

namespace Host

/-! ## Instructions keep their pace -/

section Pace

variable {σ : Type} [InputSource σ] {h : Host σ} {d now : Int} {before : Nat}

/-- A host at a reading, which had executed a number of instructions at the beginning of a
window: its last instruction was tried at no more than three milliseconds for each since then
after the beginning, and two milliseconds ago at most. -/
structure InPace (d : Int) (before : Nat) (now : Int) (h : Host σ) : Prop where
  finite : Binary64.beyondRange h.machine.lastStepAt = false
  recent : ∃ last : Int, h.machine.lastStepAt ≤ last ∧
    last ≤ d + 3 * ((h.executed : Int) - before) ∧ now ≤ last + 2

/-- A round that halts nobody counts the instruction that it tries. -/
theorem poll_executed_of_unhalted (unfailed : h.fault = none) (unfailed' : h.poll.1.fault = none) :
    h.poll.1.executed = if h.answered.stepDue then h.executed + 1 else h.executed := by
  have tried := triedCount_poll h
  simpa [triedCount, unfailed, unfailed'] using tried

/-- **A round keeps the pace**, if it is a millisecond after the last. -/
theorem InPace.tick (paced : InPace d before now h) (low : -9007199254740992 ≤ now + 1)
    (high : now + 1 ≤ 9007199254740992) (reads : (h.advance 1).answerTime = ((now + 1 : Int) : Rat))
    (unfailed : h.fault = none) (unfailed' : h.tick.fault = none) :
    InPace d before (now + 1) h.tick := by
  obtain ⟨finite, last, le, few, recent⟩ := paced
  have inside : Binary64.beyondRange ((now + 1 : Int) : Rat) = false :=
    Binary64.beyondRange_exact low high
  have stepped := poll_lastStepAt (h.advance 1)
  have counted := poll_executed_of_unhalted (h := h.advance 1) unfailed unfailed'
  rw [reads] at stepped
  cases due : (h.advance 1).answered.stepDue with
  | true =>
    rw [due, if_pos rfl] at stepped counted
    have executed : h.tick.executed = h.executed + 1 := counted
    refine ⟨?_, now + 1, ?_, ?_, by omega⟩
    · rw [Host.tick, stepped]
      exact inside
    · rw [Host.tick, stepped]
    · rw [executed]
      push_cast
      omega
  | false =>
    rw [due, if_neg Bool.false_ne_true] at stepped counted
    have same : h.tick.machine.lastStepAt = h.machine.lastStepAt := stepped
    have executed : h.tick.executed = h.executed := counted
    refine ⟨?_, last, ?_, ?_, ?_⟩
    · rw [same]
      exact finite
    · rw [same]
      exact le
    · rw [executed]
      exact few
    · -- three milliseconds after the last instruction the next would have been due
      by_contra late
      have later : ((last + 3 : Int) : Rat) ≤ ((now + 1 : Int) : Rat) := by
        exact_mod_cast (by omega : last + 3 ≤ now + 1)
      have opens : (h.advance 1).answered.machine.canStep (h.advance 1).answerTime = true := by
        rw [reads]
        apply Machine.canStep_of_later finite inside
        push_cast at later ⊢
        exact (add_le_add_left le 3).trans later
      have running : (h.advance 1).answered.halted = false := by
        show h.fault.isSome = false
        rw [unfailed]
        rfl
      have open' : (h.advance 1).answered.stepDue = true := by
        rw [stepDue, running]
        exact opens
      rw [due] at open'
      cases open'

end Pace

/-! ## A key is held -/

section Rounds

variable {σ : Type} [InputSource σ] {h : Host σ} {key : Rat} {d now : Int}

/-- The round of a press leaves the key latched at its reading. -/
theorem tick_latch_of_press (pressed : (h.advance 1).keyGiven? = some key)
    (reads : (h.advance 1).answerTime = (now : Rat)) :
    h.tick.machine.latch =
      { key := some key, pressedAt := now, holdTime := h.machine.latch.holdTime } := by
  rw [tick, poll_latch_eq, pressed, reads]
  rfl

/-- A keyless round within 200 milliseconds leaves it there. -/
theorem tick_latch_of_keyless (finite : Binary64.beyondRange (d : Rat) = false)
    (finite' : Binary64.beyondRange (now : Rat) = false)
    (held : h.machine.latch =
      { key := some key, pressedAt := d, holdTime := Latch.standardHold })
    (keyless : (h.advance 1).keyGiven? = none) (reads : (h.advance 1).answerTime = (now : Rat))
    (within : now < d + 200) : h.tick.machine.latch = h.machine.latch := by
  have before : (h.advance 1).machine.latch = h.machine.latch := rfl
  rw [tick, poll_latch_eq, keyless, reads, before, held, Latch.answered_held,
    Latch.holdOver_intCast finite finite', decide_eq_false (by omega)]
  rfl

/-- What an executed instruction that asks for a key finds in the latch decides whether it skips
the next. -/
theorem tick_pc_of_skip (latched : (h.advance 1).answered.machine.latch.key = some key) {x : Register}
    (same : byteValue (h.machine.reg x) = key) :
    ((h.advance 1).roundInstruction? = some (.skipPressed x) →
      h.tick.machine.pc = h.machine.pc + 4) ∧
    ((h.advance 1).roundInstruction? = some (.skipReleased x) →
      h.tick.machine.pc = h.machine.pc + 2) := by
  have after : ∀ ins, (h.advance 1).roundInstruction? = some ins → ins ≠ .ret →
      h.tick.machine.pc = (h.advance 1).answered.machine.nextPc ins := by
    intro ins executes other
    obtain ⟨left, shown, ok, machine⟩ := poll_machine_of_instruction executes
    rw [← Machine.step_pc_of_ne_ret ok other, tick, machine]
    rfl
  have asked : (h.advance 1).answered.machine.latch.key =
      some (byteValue ((h.advance 1).answered.machine.reg x)) := by
    rw [latched, ← same]
    rfl
  constructor
  · intro executes
    rw [after _ executes (by simp), Machine.nextPc]
    · simp only [Instruction.skips, asked, decide_true, if_true]
      rfl
    all_goals simp
  · intro executes
    rw [after _ executes (by simp), Machine.nextPc]
    · simp only [Instruction.skips, asked, ne_eq, not_true, decide_false]
      rfl
    all_goals simp

/-! ## Taps -/

/-- Round `a` of a run reads `d` and is given a key.  The 199 rounds after it read the
milliseconds after that and are given none, and nobody is halted from the beginning of that
round to the end of the last. -/
structure Tapped (h : Host σ) (a : Nat) (d : Int) (key : Rat) : Prop where
  low : -9007199254740992 ≤ d
  high : d + 199 ≤ 9007199254740992
  reads : ∀ j : Nat, j < 200 → (tick^[a + j + 1] h).clock = ((d + j : Int) : Rat)
  pressed : ((tick^[a] h).advance 1).keyGiven? = some key
  keyless : ∀ j : Nat, 0 < j → j < 200 → ((tick^[a + j] h).advance 1).keyGiven? = none
  unfailed : ∀ j ≤ 200, (tick^[a + j] h).fault = none
  standard : (tick^[a] h).machine.latch.holdTime = Latch.standardHold
  stepped : (tick^[a] h).machine.lastStepAt ≤ d ∧
    Binary64.beyondRange (tick^[a] h).machine.lastStepAt = false

/-- What a round reads is the time at which its source has answered. -/
theorem answerTime_advance (h : Host σ) : (h.advance 1).answerTime = h.tick.clock :=
  poll_clock.symm

namespace Tapped

variable {a : Nat} (tapped : Tapped h a d key)

include tapped

theorem answerTime {j : Nat} (within : j < 200) :
    ((tick^[a + j] h).advance 1).answerTime = ((d + j : Int) : Rat) := by
  rw [answerTime_advance, ← Function.iterate_succ_apply' tick]
  exact tapped.reads j within

/-- The instructions after the tap keep their pace. -/
theorem inPace {j : Nat} (within : j ≤ 200) :
    InPace d (tick^[a] h).executed (d - 1 + j) (tick^[a + j] h) := by
  have low := tapped.low
  have high := tapped.high
  induction j with
  | zero => exact ⟨tapped.stepped.2, d, tapped.stepped.1, by simp, by omega⟩
  | succ j ih =>
    have next : d - 1 + (j + 1 : Nat) = d - 1 + j + 1 := by omega
    have reads := tapped.answerTime (j := j) (by omega)
    have same : d + (j : Int) = d - 1 + j + 1 := by omega
    rw [same] at reads
    have unfailed := tapped.unfailed (j + 1) within
    rw [← Nat.add_assoc, Function.iterate_succ_apply'] at unfailed
    rw [next, ← Nat.add_assoc, Function.iterate_succ_apply']
    exact (ih (by omega)).tick (by omega) (by omega) reads (tapped.unfailed j (by omega)) unfailed

/-- **After a tap 66 instructions are executed in 200 milliseconds.** -/
theorem executed_le : (tick^[a] h).executed + 66 ≤ (tick^[a + 200] h).executed := by
  obtain ⟨-, last, -, few, recent⟩ := tapped.inPace (le_refl 200)
  omega

/-- **After a tap its key is latched for 200 milliseconds.** -/
theorem latch {j : Nat} (within : j < 200) : (tick^[a + j + 1] h).machine.latch =
    { key := some key, pressedAt := d, holdTime := Latch.standardHold } := by
  have low := tapped.low
  have high := tapped.high
  induction j with
  | zero =>
    have reads := tapped.answerTime (j := 0) within
    rw [Binary64.reading_zero] at reads
    rw [Nat.add_zero, Function.iterate_succ_apply',
      tick_latch_of_press tapped.pressed reads, tapped.standard]
  | succ j ih =>
    have held := ih (by omega)
    rw [Function.iterate_succ_apply', ← Nat.add_assoc,
      tick_latch_of_keyless (Binary64.beyondRange_exact low (by omega))
        (Binary64.beyondRange_exact (by omega) (by omega)) held
        (tapped.keyless (j + 1) (by omega) within) (tapped.answerTime within) (by omega)]
    exact held

/-- What is tried in one of the rounds finds the key in the latch. -/
theorem latched {j : Nat} (within : j < 200) :
    ((tick^[a + j] h).advance 1).answered.machine.latch.key = some key := by
  have held := tapped.latch within
  rw [Function.iterate_succ_apply', tick, poll_latch] at held
  rw [held]

end Tapped

/-- The last instruction before a reading that no round has passed was tried no later. -/
theorem lastStepAt_le {a : Nat} (begun : h.machine.lastStepAt = h.clock)
    (upTo : ∀ k ≤ a, (tick^[k] h).clock ≤ d ∧ Binary64.beyondRange (tick^[k] h).clock = false) :
    (tick^[a] h).machine.lastStepAt ≤ d ∧
      Binary64.beyondRange (tick^[a] h).machine.lastStepAt = false := by
  induction a with
  | zero =>
    rw [Function.iterate_zero_apply, begun]
    exact upTo 0 (le_refl 0)
  | succ a ih =>
    have stepped := poll_lastStepAt ((tick^[a] h).advance 1)
    have now := upTo (a + 1) (le_refl _)
    rw [answerTime_advance, ← Function.iterate_succ_apply' tick a h] at stepped
    rw [Function.iterate_succ_apply', tick, stepped]
    split
    · exact now
    · exact ih fun k le => upTo k (by omega)

theorem iterate_tick_holdTime (h : Host σ) (k : Nat) :
    (tick^[k] h).machine.latch.holdTime = h.machine.latch.holdTime := by
  induction k with
  | zero => rfl
  | succ k ih =>
    rw [Function.iterate_succ_apply', tick, poll_holdTime]
    exact ih

end Rounds

/-- The clock of a run with a script is moved on by the run alone. -/
theorem readings_pressScript (h : Host PressScript) :
    Binary64.Readings fun k => (tick^[k] h).clock := by
  intro k
  show (tick^[k + 1] h).clock = Binary64.add (tick^[k] h).clock 1
  rw [Function.iterate_succ_apply', tick, poll_clock]
  rfl

/-- **A short tap is seen.**  A new machine at any whole time is run in simulated time with a
script.  Suppose that a round of the run reads `d` and is given a key, that no round is given
one that reads more and up to `d + 199`, and that all rounds that read `d` to `d + 199` are made
and none up to then halts the host.  Then these are 200 rounds, one after the other, and at
least 66 instructions are executed in them.  Whatever is executed in one of them finds the key
latched: an instruction that skips if the key in a register is pressed skips, if it is this key,
and one that skips if it is not pressed does not. -/
theorem short_tap_is_seen (settings : Settings) (random : RandomStream) (image : List Rat)
    (start : Int) (presses : List Press) (ms : Rat) :
    let h := create settings (Machine.loaded start random image) start
      (PressScript.ofPresses presses)
    ∃ n, (h.runFor ms).1 = tick^[n] h ∧
      (∀ k < n, (tick^[k] h).running (Binary64.add start ms) = true) ∧
      ∀ (a : Nat) (d : Int) (key : Rat), a < n → (tick^[a + 1] h).clock = d →
        ((tick^[a] h).advance 1).keyGiven? = some key →
        (∀ k < n, (d : Rat) < (tick^[k + 1] h).clock → (tick^[k + 1] h).clock ≤ d + 199 →
          ((tick^[k] h).advance 1).keyGiven? = none) →
        (∀ t : Int, d ≤ t → t ≤ d + 199 → ∃ k < n, (tick^[k + 1] h).clock = t) →
        (∀ k < n, (tick^[k + 1] h).clock ≤ d + 199 → (tick^[k + 1] h).halted = false) →
        a + 200 ≤ n ∧ (tick^[a] h).executed + 66 ≤ (tick^[a + 200] h).executed ∧
          ∀ j : Nat, j < 200 →
            let before := tick^[a + j] h
            let after := tick^[a + j + 1] h
            after.clock = ((d + j : Int) : Rat) ∧
              after.executed =
                before.executed + (before.advance 1).roundInstruction?.toList.length ∧
              (before.advance 1).answered.machine.latch.key = some key ∧
              ∀ x, byteValue (before.machine.reg x) = key →
                ((before.advance 1).roundInstruction? = some (.skipPressed x) →
                  after.machine.pc = before.machine.pc + 4) ∧
                ((before.advance 1).roundInstruction? = some (.skipReleased x) →
                  after.machine.pc = before.machine.pc + 2) := by
  intro h
  obtain ⟨n, run, running⟩ := runUntil_eq_iterate (Binary64.add start ms) roundLimit h
  refine ⟨n, run, running, ?_⟩
  intro a d key inRun first pressed keyless made unhalted
  obtain ⟨low, high, long, row, upTo⟩ := (readings_pressScript h).window first made
  have reads : ∀ j : Nat, j < 200 → (tick^[a + j + 1] h).clock = ((d + j : Int) : Rat) := by
    intro j within
    rw [Nat.add_right_comm]
    exact row j within
  have inWindow : ∀ j : Nat, j < 200 → (tick^[a + j + 1] h).clock ≤ d + 199 := by
    intro j within
    rw [reads j within]
    exact_mod_cast (by omega : d + (j : Int) ≤ d + 199)
  have tapped : Tapped h a d key := by
    refine ⟨low, high, reads, pressed, ?_, ?_, iterate_tick_holdTime h a, lastStepAt_le rfl upTo⟩
    · intro j positive within
      refine keyless (a + j) (by omega) ?_ (inWindow j within)
      rw [reads j within]
      exact_mod_cast (by omega : d < d + (j : Int))
    · intro j within
      apply Option.not_isSome_iff_eq_none.mp
      rw [Bool.not_eq_true]
      cases j with
      | zero => exact (Bool.not_eq_true' _).mp (Bool.and_eq_true_iff.mp (running a inRun)).2
      | succ j => exact unhalted (a + j) (by omega) (inWindow j (by omega))
  refine ⟨long, tapped.executed_le, ?_⟩
  intro j within before after
  have next : after = before.tick := Function.iterate_succ_apply' tick (a + j) h
  refine ⟨reads j within, ?_, tapped.latched within, ?_⟩
  · rw [next]
    exact poll_executed (before.advance 1)
  · intro x same
    rw [next]
    exact tick_pc_of_skip (tapped.latched within) same

/-! ## A tap while a program asks -/

/-- A jump to itself stands at the program counter. -/
def StandsStill (m : Machine) : Prop :=
  ∃ target : Target, m.pc = (target.val : Rat) ∧ m.Upcoming (.jump target)

/-- A machine that stands still goes on standing still, and nobody is halted. -/
theorem tick_of_standsStill {σ : Type} [InputSource σ] {h : Host σ} (unfailed : h.fault = none)
    (still : StandsStill h.machine) : h.tick.fault = none ∧ StandsStill h.tick.machine := by
  obtain ⟨target, atPc, here, atPc', inside, found⟩ := still
  have ok : ∃ left, (h.advance 1).answered.machine.step (h.advance 1).answered.clock =
      (left, .ok (.jump target)) :=
    ⟨_, Machine.step_eq_ok_iff.mpr ⟨here, target.val, atPc', inside, found, rfl, rfl⟩⟩
  obtain ⟨left, ok⟩ := ok
  have clean : (h.advance 1).roundFault? = none := by
    rw [roundFault?, Machine.fault?_of_ok ok, ite_self]
  refine ⟨(poll_fault (h := h.advance 1) unfailed).trans clean, target, ?_⟩
  obtain ⟨shown, machine⟩ := (h.advance 1).poll_machine
  rw [ok] at machine
  have pc : left.pc = (target.val : Rat) := Machine.step_pc_of_ne_ret ok (by simp)
  have memory : left.memory = h.machine.memory := by
    obtain ⟨_, _, -, -, -, -, same⟩ := Machine.step_eq_ok_iff.mp ok
    rw [same]
    rfl
  rw [tick, machine]
  split
  · exact ⟨pc, here, by rw [← atPc', atPc]; exact pc, inside, by rw [← memory] at found; exact found⟩
  · exact ⟨atPc, here, atPc', inside, found⟩

/-- A program that asks for the key in V0 until it is pressed, and then stands still. -/
def asking : List Rat := [0xe0, 0x9e, 0x12, 0x00, 0x12, 0x04]

/-- The key 0, pressed at 10. -/
def tap : Press := { key := 0, atMs := (10 : Int) }

/-- A host around that program, with this press. -/
def tapping : Host PressScript :=
  create watched (Machine.loaded (0 : Int) (RandomStream.cycle []) asking) (0 : Int)
    { pending := [tap] }

/-- A single press is in order. -/
theorem create_eq_tapping : create watched
    (Machine.loaded (0 : Int) (RandomStream.cycle []) asking) (0 : Int)
      (PressScript.ofPresses [tap]) = tapping := by
  rw [tapping, PressScript.ofPresses, Press.sorted, List.mergeSort_singleton]

/-- The round at 15 asks for the key and skips, and leads to a jump to itself. -/
theorem tapping_skips :
    (∀ k < 16, (tick^[k] tapping).fault = none) ∧
      ((tick^[14] tapping).advance 1).roundInstruction? = some (.skipPressed 0) ∧
      byteValue ((tick^[14] tapping).machine.reg 0) = 0 ∧
      (tick^[15] tapping).machine.pc = (0x204 : Nat) ∧
      Instruction.decode ((tick^[15] tapping).machine.memory.wordAt 0x204) =
        some (.jump 0x204) := by
  decide +kernel

/-- Nobody is halted. -/
theorem tapping_unfailed (k : Nat) : (tick^[k] tapping).fault = none := by
  obtain ⟨clean, -, -, atPc, found⟩ := tapping_skips
  rcases Nat.lt_or_ge k 15 with early | late
  · exact clean k (by omega)
  · obtain ⟨j, rfl⟩ := Nat.exists_eq_add_of_le late
    have goesOn : (tick^[15 + j] tapping).fault = none ∧
        StandsStill (tick^[15 + j] tapping).machine := by
      clear late
      induction j with
      | zero => exact ⟨clean 15 (by decide), 0x204, atPc, 0x204, atPc, by decide, found⟩
      | succ j ih =>
        rw [← Nat.add_assoc, Function.iterate_succ_apply']
        exact tick_of_standsStill ih.1 ih.2
    exact goesOn.1

/-- The round at 10 is given the key, and no other round is given one. -/
theorem tapping_rounds (k : Nat) (small : k < 1000) :
    (tick^[k] tapping).clock = ((k : Int) : Rat) ∧
      ((tick^[k] tapping).advance 1).keyGiven? = if k = 9 then some 0 else none := by
  have deliveries : Press.delivered (((0 : Int) : Rat) + 1) (Press.sorted [tap]) = [tap] := by
    rw [Press.sorted, List.mergeSort_singleton]
    decide +kernel
  have begin := @delivering_create watched [tap] 0 (RandomStream.cycle []) asking
    fun p here => ⟨10, by rw [List.mem_singleton.mp here, tap]⟩
  rw [deliveries, create_eq_tapping] at begin
  obtain ⟨past, delivering⟩ := begin.iterate_tick (by decide) k (by omega)
  have given := delivering.keyGiven (by omega) (by omega)
  rw [Int.zero_add] at given delivering
  refine ⟨delivering.clock, given.trans ?_⟩
  have due : tap.atMs = (((k : Int) + 1 : Int) : Rat) ↔ k = 9 := by
    rw [tap, Int.cast_inj]
    omega
  simp only [List.find?_singleton, decide_eq_true_eq, due]
  split <;> rfl

/-- A run of 210 milliseconds: the tap at 10 is seen by the instruction at 15, and from 10 to 209
66 instructions are executed. -/
theorem short_tap_is_seen_asking :
    (tapping.runFor (210 : Nat)).1 = tick^[210] tapping ∧
      (tick^[9] tapping).executed + 66 ≤ (tick^[209] tapping).executed ∧
      ((tick^[14] tapping).advance 1).roundInstruction? = some (.skipPressed 0) ∧
      (tick^[15] tapping).machine.pc = (tick^[14] tapping).machine.pc + 4 := by
  obtain ⟨-, asks, register, -⟩ := tapping_skips
  have clock : ∀ k : Nat, k < 1000 → (tick^[k] tapping).clock = ((k : Int) : Rat) := fun k small =>
    (tapping_rounds k small).1
  have onTime : OnTime 0 0 tapping := onTime_create rfl rfl rfl (keepsClock_pressScript _)
  have ran : tapping.runFor (210 : Nat) = (tick^[210] tapping, none) :=
    runFor_eq_iterate (by decide) (by decide) onTime (le_refl 210)
      (fun k _ => tapping_unfailed k) (Or.inl rfl)
  obtain ⟨n, run, running, taps⟩ :=
    short_tap_is_seen watched (RandomStream.cycle []) asking 0 [tap] (210 : Nat)
  rw [create_eq_tapping] at run running taps
  have stop : Binary64.add ((0 : Int) : Rat) ((210 : Nat) : Rat) = ((210 : Int) : Rat) :=
    Binary64.add_exact (by decide) (by decide)
  have short : n ≤ 210 := by
    by_contra long
    have goesOn : (tick^[210] tapping).running (Binary64.add (0 : Int) (210 : Nat)) = true :=
      running 210 (by omega)
    have early := (Bool.and_eq_true_iff.mp goesOn).1
    rw [decide_eq_true_eq, stop, clock 210 (by decide)] at early
    exact lt_irrefl _ early
  have ended : tick^[n] tapping = tick^[210] tapping := by
    have left : (tapping.runFor (210 : Nat)).1 = tick^[210] tapping := by rw [ran]
    exact run.symm.trans left
  obtain rfl : n = 210 := by
    have same := clock n (by omega)
    rw [ended, clock 210 (by decide), Int.cast_inj] at same
    omega
  have keyless : ∀ k < 210, ((10 : Int) : Rat) < (tick^[k + 1] tapping).clock →
      (tick^[k + 1] tapping).clock ≤ ((10 : Int) : Rat) + 199 →
        ((tick^[k] tapping).advance 1).keyGiven? = none := by
    intro k before later _
    rw [clock (k + 1) (by omega), Int.cast_lt] at later
    rw [(tapping_rounds k (by omega)).2, if_neg (by omega)]
  have made : ∀ t : Int, 10 ≤ t → t ≤ 10 + 199 →
      ∃ k < 210, (tick^[k + 1] tapping).clock = t := by
    intro t low high
    obtain ⟨k, rfl⟩ : ∃ k : Nat, t = ((k + 1 : Nat) : Int) := ⟨(t - 1).toNat, by omega⟩
    exact ⟨k, by omega, clock (k + 1) (by omega)⟩
  have unhalted : ∀ k < 210, (tick^[k + 1] tapping).clock ≤ ((10 : Int) : Rat) + 199 →
      (tick^[k + 1] tapping).halted = false := by
    intro k _ _
    rw [halted, tapping_unfailed]
    rfl
  obtain ⟨-, many, rounds⟩ := taps 9 10 0 (by decide) (clock 10 (by decide))
    (tapping_rounds 9 (by decide)).2 keyless made unhalted
  obtain ⟨-, -, -, skips⟩ := rounds 5 (by decide)
  exact ⟨run, many, asks, (skips 0 register).1 asks⟩

end Host

end Chip8
