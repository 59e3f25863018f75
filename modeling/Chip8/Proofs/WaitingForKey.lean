/-
# Chip8.Proofs.WaitingForKey -- a program waits for a key and goes on

An instruction that waits for a key succeeds without one and leaves the program counter where
it is, so it is tried again and again (`Machine.Waits.step`).  All that such attempts change is
the time of the last of them, and rounds without a key change the time of the last frame as well
(`Host.moved_of_waits`).

With a single press in the script it is known when the waiting ends.  The press is reported in
the first round at or after its time, and an instruction is tried in every third millisecond.
`Awaiting` says of a host at a reading before that attempt how many attempts have been counted and
where the press is; a round keeps it (`Awaiting.tick`), and the attempt at its own time finds the
key (`Awaiting.tick_of_answered`).

The clock of a run from zero counts the rounds up to `2 ^ 53` and stands still there
(`clock_from_zero`), two milliseconds after the last attempt that it allows.
-/
import Chip8.Proofs.History
import Chip8.Proofs.ShortTap
import Mathlib.Algebra.Order.Floor.Div
import Mathlib.GroupTheory.GroupAction.Ring

set_option autoImplicit false

namespace Chip8

/-! ## Attempts -/

namespace Machine

variable {m m' : Machine} {x : Register} {now key : Rat}

/-- The machine stands at an instruction that waits for a key, and none is latched. -/
structure Waits (m : Machine) (x : Register) : Prop where
  upcoming : m.Upcoming (.waitKey x)
  empty : m.latch.key = none

/-- What stands at the program counter is known from the core. -/
theorem Upcoming.of_core {ins : Instruction} (upcoming : m.Upcoming ins)
    (same : m'.core = m.core) : m'.Upcoming ins := by
  have pc : m'.pc = m.pc := congrArg Core.pc same
  have memory : m'.memory = m.memory := congrArg Core.memory same
  obtain ⟨here, atPc, inside, found⟩ := upcoming
  exact ⟨here, pc.trans atPc, inside, by rw [memory]; exact found⟩

/-- **Without a key the attempt succeeds and changes nothing**, but for its time. -/
theorem Waits.step (waits : m.Waits x) (now : Rat) :
    m.step now = ({ m with lastStepAt := now }, .ok (.waitKey x)) := by
  obtain ⟨⟨here, atPc, inside, found⟩, empty⟩ := waits
  have stays : ({ m with lastStepAt := now } : Machine).execute now here (.waitKey x) =
      ({ m with lastStepAt := now }, .ok here) := by
    simp only [execute, empty]
  refine step_eq_ok_iff.mpr ⟨here, here, atPc, inside, found, by rw [stays], ?_⟩
  rw [stays, Nat.mod_eq_of_lt (by omega), ← atPc]

/-- With a key the attempt loads it and goes on behind the instruction. -/
theorem Upcoming.step_of_key (upcoming : m.Upcoming (.waitKey x)) (held : m.latch.key = some key)
    (now : Rat) :
    m.step now =
      ({ m.setV x (wrapByte key) with lastStepAt := now, pc := m.pc + 2 }, .ok (.waitKey x)) := by
  obtain ⟨here, atPc, inside, found⟩ := upcoming
  have goesOn : ({ m with lastStepAt := now } : Machine).execute now here (.waitKey x) =
      (({ m with lastStepAt := now } : Machine).setV x (wrapByte key), .ok (here + 2)) := by
    simp only [execute, held]
  refine step_eq_ok_iff.mpr ⟨here, here + 2, atPc, inside, found, by rw [goesOn], ?_⟩
  rw [goesOn, Nat.mod_eq_of_lt (by omega), ← pc_add atPc 2]
  rfl

/-- A machine that waits does so after every attempt. -/
theorem Waits.of_core (waits : m.Waits x) (same : m'.core = m.core)
    (latch : m'.latch = m.latch) : m'.Waits x :=
  ⟨waits.upcoming.of_core same, latch ▸ waits.empty⟩

/-- **Any number of attempts without a key change nothing**, but for the time of the last. -/
theorem Waits.after (waits : m.Waits x) (times : Nat → Rat) (n : Nat) :
    ∃ tried, m.after (fun k => (.step, times k)) n = { m with lastStepAt := tried } := by
  induction n with
  | zero => exact ⟨m.lastStepAt, rfl⟩
  | succ n ih =>
    obtain ⟨tried, before⟩ := ih
    have waits' : ({ m with lastStepAt := tried } : Machine).Waits x := waits.of_core rfl rfl
    refine ⟨times n, ?_⟩
    rw [Machine.after, before]
    exact congrArg Prod.fst (waits'.step (times n))

end Machine

namespace Host

/-! ## Rounds without a key -/

section Keyless

variable {σ : Type} [InputSource σ] {h : Host σ} {x : Register}

/-- A keyless round of a machine that waits leaves the machine it finds after the input phase. -/
theorem answered_of_waits (waits : h.machine.Waits x) (keyless : h.keyGiven? = none) :
    h.answered.machine = h.machine := by
  have latch : h.machine.latch.answered h.keyGiven? h.answerTime = h.machine.latch := by
    rw [keyless, Latch.answered_none waits.empty]
  show { h.machine with latch := h.machine.latch.answered h.keyGiven? h.answerTime } = h.machine
  rw [latch]

/-- **A keyless round of a machine that waits changes nothing**, but for the times of the last
attempt and the last frame: it ends without an error and halts nobody. -/
theorem poll_of_waits (waits : h.machine.Waits x) (keyless : h.keyGiven? = none) :
    (∃ tried shown,
      h.poll.1.machine = ({ h.machine with lastStepAt := tried } : Machine).flushed shown) ∧
      h.poll.2 = none ∧ h.poll.1.fault = h.fault := by
  have machine := answered_of_waits waits keyless
  have step := waits.step h.answered.clock
  have clean : h.roundFault? = none := by
    rw [roundFault?, machine, Machine.fault?_of_ok step, ite_self]
  refine ⟨?_, ?_, ?_⟩
  · obtain ⟨shown, left⟩ := h.poll_machine
    rw [machine, step] at left
    rw [left]
    split
    · exact ⟨h.answered.clock, shown, rfl⟩
    · exact ⟨h.machine.lastStepAt, shown, rfl⟩
  · rw [poll_snd, clean, Option.map_none, ite_self]
  · cases halted : h.fault with
    | none => rw [poll_fault halted, clean]
    | some fault =>
      have stopped : h.halted = true := by
        rw [Host.halted, halted]
        rfl
      rw [poll_of_halted stopped]
      exact (flushPhase_frame _).2.2.2.2.trans halted

/-- **Any number of keyless rounds change nothing** but these times, whatever is done to the
clock between them. -/
theorem moved_of_waits (waits : h.machine.Waits x) (moves : Nat → Move) (n : Nat)
    (keyless : ∀ k < n, moves k = .poll → (h.moved moves k).keyGiven? = none) :
    (∃ tried shown, (h.moved moves n).machine =
      ({ h.machine with lastStepAt := tried } : Machine).flushed shown) ∧
      (h.moved moves n).fault = h.fault := by
  induction n with
  | zero => exact ⟨⟨h.machine.lastStepAt, h.machine.screen.lastFlushAt, rfl⟩, rfl⟩
  | succ n ih =>
    obtain ⟨⟨tried, shown, before⟩, fault⟩ := ih fun k earlier => keyless k (by omega)
    rw [moved]
    cases move : moves n with
    | setClock time | advance ms => exact ⟨⟨tried, shown, before⟩, fault⟩
    | poll =>
      have waits' : (h.moved moves n).machine.Waits x := by
        rw [before]
        exact waits.of_core rfl rfl
      obtain ⟨⟨tried', shown', after⟩, -, fault'⟩ :=
        poll_of_waits waits' (keyless n (Nat.lt_succ_self n) move)
      refine ⟨⟨tried', shown', ?_⟩, fault'.trans fault⟩
      rw [Host.move, after, before]
      rfl

end Keyless

/-! ## One press to come -/

/-- The reading of the round that reports a press, if it is the only one of its script and the
rounds come in every millisecond from the first on. -/
def reportedAt (atMs : Nat) : Nat := max atMs 1

/-- The reading of the first attempt from then on, one being made in every third millisecond. -/
def answeredAt (atMs : Nat) : Nat := 3 * (reportedAt atMs ⌈/⌉ 3)

theorem answeredAt_eq (atMs : Nat) : answeredAt atMs = 3 * ((max atMs 1 + 2) / 3) := by
  rw [answeredAt, reportedAt, Nat.ceilDiv_eq_add_pred_div]
  rfl

/-- Where the press is at a reading: in the script until it is reported, and in the latch from
then on. -/
inductive Placed (key : Rat) (atMs now : Nat) : List Press → Latch → Prop
  | ahead (pressedAt : Rat) (early : now < reportedAt atMs) :
      Placed key atMs now [{ key, atMs := (atMs : Rat) }]
        { key := none, pressedAt, holdTime := Latch.standardHold }
  | held (late : reportedAt atMs ≤ now) :
      Placed key atMs now []
        { key := some key
          pressedAt := (reportedAt atMs : Rat)
          holdTime := Latch.standardHold }

section Press

variable {key : Rat} {atMs now next : Nat} {pending : List Press} {latch : Latch}

/-- Before it is reported nothing is latched. -/
theorem Placed.empty (placed : Placed key atMs now pending latch) (early : now < reportedAt atMs) :
    latch.key = none := by
  cases placed with
  | ahead pressedAt _ => rfl
  | held late => omega

theorem Placed.latched (placed : Placed key atMs now pending latch)
    (late : reportedAt atMs ≤ now) : latch.key = some key := by
  cases placed with
  | ahead pressedAt early => omega
  | held _ => rfl

variable (begun : 1 ≤ next) (order : now ≤ next) (near : next ≤ now + 1)
  (high : next ≤ 9007199254740992)

include begun order near high

/-- A round reports the press if it is time, and holds it if it has been reported. -/
theorem Placed.round (placed : Placed key atMs now pending latch)
    (short : next < reportedAt atMs + 200) :
    let answer := ({ pending } : PressScript).poll (next : Rat)
    Placed key atMs next answer.2.pending (latch.answered answer.1 (next : Rat)) := by
  cases placed with
  | ahead pressedAt early =>
    by_cases due : atMs ≤ next
    · have time : next = reportedAt atMs := by
        rw [reportedAt] at early ⊢
        omega
      have reports : ¬ ((next : Rat) < (atMs : Rat)) := by
        rw [not_lt]
        exact_mod_cast due
      simp only [PressScript.poll, if_neg reports, Latch.answered, Latch.press]
      rw [time]
      exact .held (le_refl _)
    · have waits : ((next : Rat) < (atMs : Rat)) := by
        exact_mod_cast Nat.lt_of_not_le due
      simp only [PressScript.poll, if_pos waits, Latch.answered_none]
      exact .ahead pressedAt (by rw [reportedAt]; omega)
  | held late =>
    have within : Latch.holdOver (reportedAt atMs : Rat) (next : Rat) = false := by
      have exact (n : Nat) (small : n ≤ 9007199254740992) :
          Binary64.beyondRange ((n : Int) : Rat) = false :=
        Binary64.beyondRange_exact (by omega) (by omega)
      have elapsed := Latch.holdOver_intCast (exact (reportedAt atMs) (by omega)) (exact next high)
      rw [decide_eq_false (by omega)] at elapsed
      exact_mod_cast elapsed
    simp only [PressScript.poll, Latch.answered_held, within]
    exact .held (by omega)

end Press

/-! ## Rounds until the attempt that finds it -/

/-- A host at a reading of a run from zero, with a machine that computes with what `m` computes
with: every third millisecond has seen an attempt, all have succeeded, and the press is where it
has to be. -/
structure Awaiting (m : Machine) (key : Rat) (atMs now : Nat) (h : Host PressScript) : Prop where
  early : now < answeredAt atMs
  fault : h.fault = none
  clock : h.clock = (now : Rat)
  core : h.machine.core = m.core
  stepped : h.machine.lastStepAt = ((3 * (now / 3) : Nat) : Rat)
  executed : h.executed = now / 3
  placed : Placed key atMs now h.input.pending h.machine.latch

namespace Awaiting

variable {m : Machine} {x : Register} {key : Rat} {atMs now next : Nat} {h : Host PressScript}
  (awaiting : Awaiting m key atMs now h) (begun : 1 ≤ next) (order : now ≤ next)
  (near : next ≤ now + 1) (high : next ≤ 9007199254740992)
  (reads : (h.advance 1).clock = (next : Rat))

include awaiting begun order near high reads

/-- The round finds the press where it has to be at its reading. -/
theorem placed_answered (soon : next ≤ answeredAt atMs) :
    Placed key atMs next (h.advance 1).answered.input.pending
      (h.advance 1).answered.machine.latch := by
  rw [answeredAt_eq] at soon
  have placed := awaiting.placed.round begun order near high (by rw [reportedAt]; omega)
  rw [← reads] at placed
  exact placed

/-- An instruction is tried if the round is three milliseconds after the last. -/
theorem stepDue_answered :
    (h.advance 1).answered.stepDue = decide (3 * (now / 3) + 2 < next) := by
  have running : (h.advance 1).answered.halted = false := by
    show h.fault.isSome = false
    rw [awaiting.fault]
    rfl
  have stepped : (h.advance 1).answered.machine.lastStepAt = ((3 * (now / 3) : Nat) : Int) := by
    exact_mod_cast awaiting.stepped
  have due : (h.advance 1).answered.machine.canStep ((next : Int) : Rat) =
      decide (2 < (next : Int) - (3 * (now / 3) : Nat)) :=
    Machine.canStep_eq (by omega) (by omega) (by omega) (by omega) stepped
  have clock : (h.advance 1).answered.clock = ((next : Int) : Rat) := by
    exact_mod_cast reads
  rw [stepDue, running, clock, due, Bool.not_false, Bool.true_and, decide_eq_decide]
  omega

/-- **A round before the attempt that finds the key leaves the program waiting.** -/
theorem tick (upcoming : m.Upcoming (.waitKey x)) (soon : next < answeredAt atMs) :
    Awaiting m key atMs next h.tick := by
  have placed := awaiting.placed_answered begun order near high reads soon.le
  have due := awaiting.stepDue_answered begun order near high reads
  have core : (h.advance 1).answered.machine.core = m.core := awaiting.core
  -- an attempt before that one comes before the press is reported
  have waits : (h.advance 1).answered.stepDue = true →
      (h.advance 1).answered.machine.Waits x := by
    intro open'
    rw [due, decide_eq_true_eq] at open'
    refine ⟨upcoming.of_core core, placed.empty ?_⟩
    rw [answeredAt_eq] at soon
    rw [reportedAt]
    omega
  have step : (h.advance 1).answered.stepDue = true →
      (h.advance 1).answered.machine.step (h.advance 1).answered.clock = _ :=
    fun open' => (waits open').step _
  refine ⟨soon, ?_, ?_, ?_, ?_, ?_, ?_⟩
  · rw [Host.tick, poll_fault (h := h.advance 1) awaiting.fault, roundFault?]
    split
    · rename_i open'
      exact Machine.fault?_of_ok (step open')
    · rfl
  · rw [Host.tick, poll_clock]
    exact reads
  · obtain ⟨shown, machine⟩ := (h.advance 1).poll_machine
    rw [Host.tick, machine]
    split
    · rename_i open'
      rw [step open']
      exact core
    · exact core
  · rw [Host.tick, poll_lastStepAt, due]
    have reading : (h.advance 1).answerTime = (next : Rat) := reads
    have stepped : (h.advance 1).machine.lastStepAt = ((3 * (now / 3) : Nat) : Rat) :=
      awaiting.stepped
    rw [reading, stepped]
    split
    · congr 1
      rename_i open'
      rw [decide_eq_true_eq] at open'
      omega
    · congr 1
      rename_i closed
      rw [decide_eq_true_eq] at closed
      omega
  · have before : (h.advance 1).executed = now / 3 := awaiting.executed
    rw [Host.tick, poll_executed, before, roundInstruction?]
    split
    · rename_i open'
      rw [step open']
      rw [due, decide_eq_true_eq] at open'
      simp only [Except.toOption, Option.toList_some, List.length_singleton]
      omega
    · rename_i closed
      rw [due, decide_eq_true_eq] at closed
      simp only [Option.toList_none, List.length_nil]
      omega
  · rw [Host.tick, poll_input, poll_latch]
    exact placed

/-- **The first attempt from the press on finds the key**: it loads it, and the program goes on
behind the instruction. -/
theorem tick_of_answered (upcoming : m.Upcoming (.waitKey x)) (time : next = answeredAt atMs) :
    (h.advance 1).roundInstruction? = some (.waitKey x) ∧ h.tick.fault = none ∧
      h.tick.executed = next / 3 ∧
      h.tick.machine.core =
        { m.core with v := m.v.set x (wrapByte key), pc := m.pc + 2 } := by
  have placed := awaiting.placed_answered begun order near high reads time.le
  have core : (h.advance 1).answered.machine.core = m.core := awaiting.core
  have early := awaiting.early
  rw [answeredAt_eq] at time early
  have due : (h.advance 1).answered.stepDue = true := by
    rw [awaiting.stepDue_answered begun order near high reads, decide_eq_true_eq]
    omega
  have found : (h.advance 1).answered.machine.latch.key = some key :=
    placed.latched (by rw [reportedAt]; omega)
  have step := (upcoming.of_core core).step_of_key found (h.advance 1).answered.clock
  have executes : (h.advance 1).roundInstruction? = some (.waitKey x) :=
    roundInstruction?_eq_some_iff.mpr ⟨due, _, step⟩
  refine ⟨executes, ?_, ?_, ?_⟩
  · rw [Host.tick, poll_fault (h := h.advance 1) awaiting.fault, roundFault?, if_pos due,
      Machine.fault?_of_ok step]
  · have before : (h.advance 1).executed = now / 3 := awaiting.executed
    rw [Host.tick, poll_executed, executes, before, Option.toList_some, List.length_singleton]
    omega
  · obtain ⟨shown, machine⟩ := (h.advance 1).poll_machine
    rw [if_pos due, step] at machine
    obtain ⟨v, -, pc, -⟩ := Machine.Core.mk.inj core
    rw [Host.tick, machine, ← core]
    show Machine.Core.mk _ _ _ _ _ _ = Machine.Core.mk _ _ _ _ _ _
    rw [← v, ← pc]
    rfl

end Awaiting

/-! ## Runs from zero -/

section Run

variable {m : Machine} {x : Register} {key : Rat} {atMs : Nat} {h : Host PressScript}

/-- **The clock of a run from zero counts the rounds**, up to `2 ^ 53`, where a millisecond more
is rounded away. -/
theorem clock_from_zero (zero : h.clock = 0) (k : Nat) :
    (tick^[k] h).clock = ((min k 9007199254740992 : Nat) : Rat) := by
  induction k with
  | zero => exact zero
  | succ k ih =>
    have next : (tick^[k + 1] h).clock = Binary64.add (tick^[k] h).clock ((1 : Nat) : Rat) :=
      readings_pressScript h k
    rw [next, ih]
    rcases Nat.lt_or_ge k 9007199254740992 with exact | still
    · rw [Nat.min_eq_left exact.le, Nat.min_eq_left (by omega)]
      exact Binary64.add_natCast (by rw [Binary64.exactLimit]; omega)
    · rw [Nat.min_eq_right still, Nat.min_eq_right (by omega)]
      decide +kernel

theorem clock_advance_from_zero (zero : h.clock = 0) (k : Nat) :
    ((tick^[k] h).advance 1).clock = ((min (k + 1) 9007199254740992 : Nat) : Rat) := by
  rw [← clock_from_zero zero (k + 1), Function.iterate_succ_apply', tick, poll_clock]
  rfl

/-- A program waits in every round that reads less than the time of the attempt that finds the
key. -/
theorem Awaiting.iterate_tick (awaiting : Awaiting m key atMs 0 h)
    (upcoming : m.Upcoming (.waitKey x)) (k : Nat)
    (soon : min k 9007199254740992 < answeredAt atMs) :
    Awaiting m key atMs (min k 9007199254740992) (Host.tick^[k] h) := by
  induction k with
  | zero => exact awaiting
  | succ k ih =>
    have reads := clock_advance_from_zero (awaiting.clock.trans Nat.cast_zero) k
    rw [Function.iterate_succ_apply']
    exact (ih (by omega)).tick (by omega) (by omega) (by omega) (by omega) reads upcoming soon

/-- The attempt that finds the key is made in the round that reads its time. -/
theorem Awaiting.iterate_tick_of_answered (awaiting : Awaiting m key atMs 0 h)
    (upcoming : m.Upcoming (.waitKey x)) (k : Nat)
    (time : min (k + 1) 9007199254740992 = answeredAt atMs) :
    ((Host.tick^[k] h).advance 1).roundInstruction? = some (.waitKey x) ∧
      (Host.tick^[k + 1] h).fault = none ∧
      (Host.tick^[k + 1] h).executed = answeredAt atMs / 3 ∧
      (Host.tick^[k + 1] h).machine.core =
        { m.core with v := m.v.set x (wrapByte key), pc := m.pc + 2 } := by
  have reads := clock_advance_from_zero (awaiting.clock.trans Nat.cast_zero) k
  -- the clock does not stand still at a multiple of three
  have early : min k 9007199254740992 < answeredAt atMs := by
    rw [answeredAt_eq] at time ⊢
    omega
  rw [Function.iterate_succ_apply', ← time]
  exact (awaiting.iterate_tick upcoming k early).tick_of_answered (by omega) (by omega) (by omega)
    (by omega) reads upcoming time

/-- A run goes through its first rounds, if it goes on before each of them and none ends with an
error. -/
theorem runUntil_of_quiet {σ : Type} [InputSource σ] {h : Host σ} {stop : Rat} {n limit : Nat}
    (enough : n ≤ limit)
    (quiet : ∀ k < n, (tick^[k] h).running stop = true ∧
      ((tick^[k] h).advance 1).poll.2 = none) :
    runUntil stop limit h = runUntil stop (limit - n) (tick^[n] h) := by
  induction n generalizing h limit with
  | zero => rfl
  | succ n ih =>
    obtain ⟨limit, rfl⟩ : ∃ less, limit = less + 1 := ⟨limit - 1, by omega⟩
    obtain ⟨goesOn, unescaped⟩ := quiet 0 (Nat.succ_pos n)
    have round : (h.advance 1).poll = (h.tick, none) := Prod.ext rfl unescaped
    have rest := @ih h.tick limit (by omega) fun k before => quiet (k + 1) (by omega)
    have goesOn : h.running stop = true := goesOn
    rw [runUntil_round goesOn, round, followedBy_none, rest, Function.iterate_succ_apply,
      Nat.add_sub_add_right]

/-- A run of so many milliseconds from zero ends at that reading or later. -/
theorem natCast_le_add_zero {n : Nat} {ms : Rat} (small : n ≤ 9007199254740992)
    (le : (n : Rat) ≤ ms) : (n : Rat) ≤ Binary64.add 0 ms := by
  rw [Binary64.add, Binary64.beyondRange_zero]
  cases Binary64.beyondRange ms with
  | true => exact le
  | false =>
    rw [zero_add]
    exact Binary64.intCast_le_round (n := n) (by rw [Binary64.exactLimit]; omega)
      (by exact_mod_cast le)

/-- A new machine that waits for a key, with a press to come. -/
theorem awaiting_create (settings : Settings) (random : RandomStream) (image : List Rat)
    (key : Rat) (atMs : Nat) :
    Awaiting (Machine.loaded 0 random image) key atMs 0
      (create settings (Machine.loaded 0 random image) 0
        (PressScript.ofPresses [{ key, atMs := (atMs : Rat) }])) where
  early := by
    rw [answeredAt_eq]
    omega
  fault := rfl
  clock := rfl
  core := rfl
  stepped := rfl
  executed := rfl
  placed := by
    have script : (PressScript.ofPresses [{ key, atMs := (atMs : Rat) }]).pending =
        [{ key, atMs := (atMs : Rat) }] := List.mergeSort_singleton _
    show Placed key atMs 0 (PressScript.ofPresses [{ key, atMs := (atMs : Rat) }]).pending _
    rw [script]
    exact .ahead 0 (by rw [reportedAt]; omega)

section BeforeTheKey

variable (awaiting : Awaiting m key atMs 0 h) (upcoming : m.Upcoming (.waitKey x)) {k : Nat}
  (before : k < answeredAt atMs)

include awaiting upcoming before

theorem Awaiting.unfailed : (Host.tick^[k] h).fault = none :=
  (awaiting.iterate_tick upcoming k (by omega)).fault

variable (small : answeredAt atMs ≤ 9007199254740992)

include small

/-- The round that finds the key and those before it end without an error. -/
theorem Awaiting.quiet : ((Host.tick^[k] h).advance 1).poll.2 = none := by
  have unfailed := awaiting.unfailed upcoming before
  have clean : ((Host.tick^[k] h).advance 1).roundFault? = none := by
    rw [← poll_fault (h := (Host.tick^[k] h).advance 1) unfailed]
    show (Host.tick (Host.tick^[k] h)).fault = none
    rw [← Function.iterate_succ_apply' Host.tick]
    rcases Nat.lt_or_ge (k + 1) (answeredAt atMs) with further | last
    · exact awaiting.unfailed upcoming further
    · exact (awaiting.iterate_tick_of_answered upcoming k (by omega)).2.1
  rw [poll_snd, clean, Option.map_none, ite_self]

/-- A run whose end is no earlier than that round goes on before it. -/
theorem Awaiting.running_before {stop : Rat} (le : (answeredAt atMs : Rat) ≤ stop) :
    (Host.tick^[k] h).running stop = true := by
  have early : (Host.tick^[k] h).clock < stop := by
    rw [clock_from_zero (awaiting.clock.trans Nat.cast_zero), Nat.min_eq_left (by omega)]
    exact (Nat.cast_lt.mpr before).trans_le le
  rw [running, halted, awaiting.unfailed upcoming before, decide_eq_true early]
  rfl

end BeforeTheKey

/-- A run makes the round in which the attempt finds the key, if that is within its time. -/
theorem Awaiting.runFor (awaiting : Awaiting m key atMs 0 h) (upcoming : m.Upcoming (.waitKey x))
    (ms : Rat) :
    ∃ n, (h.runFor ms).1 = Host.tick^[n] h ∧
      (∀ k < n, (Host.tick^[k] h).running (Binary64.add 0 ms) = true) ∧
      (answeredAt atMs ≤ 9007199254740992 → (answeredAt atMs : Rat) ≤ ms →
        answeredAt atMs ≤ n) := by
  have zero : h.clock = 0 := awaiting.clock.trans Nat.cast_zero
  have run : h.runFor ms = runUntil (Binary64.add 0 ms) roundLimit h := by
    rw [Host.runFor, zero]
  by_cases reach : answeredAt atMs ≤ 9007199254740992 ∧ (answeredAt atMs : Rat) ≤ ms
  · obtain ⟨small, le⟩ := reach
    have stop := natCast_le_add_zero small le
    have goesOn (k : Nat) (before : k < answeredAt atMs) :
        (Host.tick^[k] h).running (Binary64.add 0 ms) = true :=
      awaiting.running_before upcoming before small stop
    have enough : answeredAt atMs ≤ roundLimit := by
      rw [roundLimit]
      omega
    obtain ⟨more, rest, further⟩ := runUntil_eq_iterate (Binary64.add 0 ms)
      (roundLimit - answeredAt atMs) (Host.tick^[answeredAt atMs] h)
    refine ⟨more + answeredAt atMs, ?_, ?_, fun _ _ => Nat.le_add_left _ _⟩
    · have first := runUntil_of_quiet enough fun k before =>
        ⟨goesOn k before, awaiting.quiet upcoming before small⟩
      rw [run, first, rest, Function.iterate_add_apply]
    · intro k within
      rcases Nat.lt_or_ge k (answeredAt atMs) with early | late
      · exact goesOn k early
      · obtain ⟨j, rfl⟩ := Nat.exists_eq_add_of_le' late
        rw [Function.iterate_add_apply]
        exact further j (by omega)
  · obtain ⟨n, left, further⟩ := runUntil_eq_iterate (Binary64.add 0 ms) roundLimit h
    refine ⟨n, by rw [run, left], further, fun small le => absurd ⟨small, le⟩ reach⟩

end Run

/-- **A program that waits for a key goes on when the key is there, and not before.**  A machine
at an instruction that waits for a key, with none latched, stays as it is through any number of
attempts, each of which succeeds, and through any number of rounds without a key: only the times
of the last attempt and the last frame are new.

If a new program begins with such an instruction and is run in simulated time from zero, with a
single press in its script, then every round that reads less than the first multiple of three
milliseconds from the press and the first millisecond on leaves all that the program computes
with as it was.  In the round that reads this time the instruction finds the key, loads it and
goes on, as the last of as many instructions as there have been attempts.  A run that is long
enough makes that round, unless the clock stands still before. -/
theorem waits_until_pressed :
    (∀ (m : Machine) (x : Register), m.Waits x → ∀ (times : Nat → Rat) (n : Nat),
      let left := m.after (fun k => (.step, times k)) n
      (∃ tried, left = { m with lastStepAt := tried }) ∧
        ∀ now, (left.step now).2 = .ok (.waitKey x)) ∧
    (∀ {σ : Type} [InputSource σ] (h : Host σ) (x : Register), h.machine.Waits x →
      ∀ (moves : Nat → Move) (n : Nat),
        (∀ k < n, moves k = .poll → (h.moved moves k).keyGiven? = none) →
          (∃ tried shown, (h.moved moves n).machine =
            ({ h.machine with lastStepAt := tried } : Machine).flushed shown) ∧
          (h.moved moves n).fault = h.fault) ∧
    ∀ (settings : Settings) (random : RandomStream) (image : List Rat) (x : Register)
      (key : Fin 16) (atMs : Nat) (ms : Rat),
      let m := Machine.loaded 0 random image
      let h := create settings m 0
        (PressScript.ofPresses [{ key := (key.val : Rat), atMs := (atMs : Rat) }])
      let answered := 3 * (max atMs 1 ⌈/⌉ 3)
      m.Upcoming (.waitKey x) →
      (∃ n, (h.runFor ms).1 = tick^[n] h ∧
        (∀ k < n, (tick^[k] h).running (Binary64.add 0 ms) = true) ∧
        (answered ≤ 9007199254740992 → (answered : Rat) ≤ ms → answered ≤ n)) ∧
      ∀ k : Nat,
        let after := tick^[k + 1] h
        after.clock = ((min (k + 1) 9007199254740992 : Nat) : Rat) ∧
        (after.clock < answered → after.machine.core = m.core ∧ after.machine.pc = 0x200) ∧
        (after.clock = answered →
          ((tick^[k] h).advance 1).roundInstruction? = some (.waitKey x) ∧
            after.machine.pc = 0x202 ∧ after.machine.reg x = UInt8.ofNat key.val ∧
            (∀ r, r ≠ x → after.machine.reg r = m.reg r) ∧ after.executed = answered / 3) := by
  refine ⟨?_, ?_, ?_⟩
  · intro m x waits times n left
    obtain ⟨tried, same⟩ := waits.after times n
    have again : left.Waits x := by
      rw [show left = _ from same]
      exact waits.of_core rfl rfl
    exact ⟨⟨tried, same⟩, fun now => congrArg Prod.snd (again.step now)⟩
  · intro σ _ h x waits moves n keyless
    exact moved_of_waits waits moves n keyless
  · intro settings random image x key atMs ms m h answered upcoming
    have awaiting : Awaiting m key.val atMs 0 h := awaiting_create settings random image _ atMs
    have pc : m.pc = 0x200 := rfl
    refine ⟨awaiting.runFor upcoming ms, ?_⟩
    intro k after
    have clock : after.clock = ((min (k + 1) 9007199254740992 : Nat) : Rat) :=
      clock_from_zero rfl (k + 1)
    refine ⟨clock, ?_, ?_⟩
    · intro early
      rw [clock, Nat.cast_lt] at early
      have core := (awaiting.iterate_tick upcoming (k + 1) early).core
      exact ⟨core, (congrArg Machine.Core.pc core).trans pc⟩
    · intro time
      rw [clock, Nat.cast_inj] at time
      obtain ⟨executes, -, executed, core⟩ := awaiting.iterate_tick_of_answered upcoming k time
      obtain ⟨v, -, goesOn, -⟩ := Machine.Core.mk.inj core
      have byte : wrapByte (key.val : Rat) = UInt8.ofNat key.val := by
        have small := key.isLt
        have whole : (((key.val : Nat) : Int) % 256).toNat = key.val := by omega
        rw [← Rat.intCast_natCast, wrapByte_intCast, whole]
      have reg (r : Register) : after.machine.reg r = (m.v.set x (wrapByte key.val)).get r :=
        congrArg (Vector.get · r) v
      refine ⟨executes, ?_, ?_, ?_, executed⟩
      · rw [show after.machine.pc = m.pc + 2 from goesOn, pc]
        norm_num
      · rw [reg, byte]
        exact (Machine.reg_setV m x x _).trans (if_pos rfl)
      · intro r other
        rw [reg]
        exact (Machine.reg_setV m x r _).trans (if_neg other)

/-- A program that waits for a key and loads it into V3. -/
def waitingForKey : List Rat := [0xf3, 0x0a]

/-- The key B is pressed at 4.  The attempt at 3 has not found it, the one at 6 does, and a run
of 6 milliseconds makes that one. -/
theorem waits_until_pressed_atFour :
    let m := Machine.loaded 0 (RandomStream.cycle []) waitingForKey
    let h := create watched m 0
      (PressScript.ofPresses [{ key := ((11 : Fin 16).val : Rat), atMs := ((4 : Nat) : Rat) }])
    (m.after (fun k => (.step, (k : Rat))) 100).pc = 0x200 ∧
      ((create watched m 0 ()).moved (fun _ => .poll) 100).machine.core = m.core ∧
      (tick^[5] h).machine.pc = 0x200 ∧ (tick^[6] h).machine.pc = 0x202 ∧
      (tick^[6] h).machine.reg 3 = 11 ∧ (tick^[6] h).executed = 2 ∧
      ∃ n, 6 ≤ n ∧ (h.runFor 6).1 = tick^[n] h := by
  intro m h
  have upcoming : m.Upcoming (.waitKey 3) := ⟨0x200, rfl, by decide, by decide +kernel⟩
  have waits : m.Waits 3 := ⟨upcoming, rfl⟩
  obtain ⟨attempts, rounds, press⟩ := waits_until_pressed
  obtain ⟨⟨tried, left⟩, -⟩ := attempts m 3 waits (fun k => (k : Rat)) 100
  obtain ⟨⟨tried', shown, left'⟩, -⟩ := rounds (create watched m 0 ()) 3 waits (fun _ => .poll) 100
    fun _ _ _ => rfl
  obtain ⟨⟨n, run, -, long⟩, each⟩ :=
    press watched (RandomStream.cycle []) waitingForKey 3 11 4 6 upcoming
  have time : 3 * (max 4 1 ⌈/⌉ 3) = 6 := by decide
  rw [time] at long each
  obtain ⟨clock, early, -⟩ := each 4
  obtain ⟨clock', -, last⟩ := each 5
  obtain ⟨-, pc, loaded, -, executed⟩ := last clock'
  refine ⟨?_, ?_, (early ?_).2, pc, loaded, executed, n, long (by decide) (by norm_num), run⟩
  · rw [left]
    rfl
  · rw [left']
    rfl
  · rw [clock]
    norm_num

end Host

end Chip8
