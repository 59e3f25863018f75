/-
# Chip8.Proofs.SplitRuns -- a run of simulated time in two parts

A run makes its rounds until the clock reads its end, and its end is worked out from the
clock when it begins.  Two runs, one after the other, make the rounds of a single one
(`runUntil_split`): as long as the first goes on the single run does, and from there on
their rounds are those of the second.  What is left to see is that the second run works out
the same end, which it does if the first leaves the clock at its own end
(`runFor_composes`).

The loop has a bound on its rounds, which no run meets that comes to an end: more rounds
allowed change nothing (`runUntil_of_more`).  A clock that shows the milliseconds of the
rounds and no others (`Metered`) brings every run to its end in time
(`runUntil_metered`), and so does every source that leaves the clock alone.

Two things keep runs from composing (`runFor_one_twice`): a source that carries the clock
past the end of the first run, and a clock so far below zero that a millisecond is rounded
away or doubled.
-/
import Chip8.Proofs.BareStepping
import Chip8.Proofs.Halting
import Mathlib.Algebra.Order.Ring.Unbundled.Rat

set_option autoImplicit false

namespace Chip8.Host

variable {σ : Type}

/-! ## One run after another -/

/-- What is done next, unless an error has escaped. -/
def followedBy (run : Host σ × Option Escape) (next : Host σ → Host σ × Option Escape) :
    Host σ × Option Escape :=
  match run with
  | (h, some escape) => (h, some escape)
  | (h, none) => next h

@[simp] theorem followedBy_none (h : Host σ) (next : Host σ → Host σ × Option Escape) :
    followedBy (h, none) next = next h := rfl

@[simp] theorem followedBy_some (h : Host σ) (escape : Escape)
    (next : Host σ → Host σ × Option Escape) :
    followedBy (h, some escape) next = (h, some escape) := rfl

/-- A run that has come to its end: an error has escaped, or it does not go on. -/
def Ended (stop : Rat) (run : Host σ × Option Escape) : Prop :=
  run.2 ≠ none ∨ run.1.running stop = false

theorem running_of_earlier {h : Host σ} {stop late : Rat} (earlier : stop ≤ late)
    (goesOn : h.running stop = true) : h.running late = true := by
  simp only [running, Bool.and_eq_true, decide_eq_true_eq] at goesOn ⊢
  exact ⟨lt_of_lt_of_le goesOn.1 earlier, goesOn.2⟩

section Loop

variable [InputSource σ] {h : Host σ} {stop late : Rat} {limit : Nat}

/-- A run that goes on makes a round, and then the rest of its rounds. -/
theorem runUntil_round (goesOn : h.running stop = true) (limit : Nat) :
    runUntil stop (limit + 1) h = followedBy (h.advance 1).poll (runUntil stop limit) := by
  rw [runUntil, if_pos goesOn]
  rcases (h.advance 1).poll with ⟨left, _ | escape⟩ <;> rfl

/-- **What the rounds of a run do to changed hosts alike, the run does**, if the change keeps
what the rounds need. -/
theorem runUntil_map {τ : Type} [InputSource τ] {f : Host σ → Host τ} {Good : Host σ → Prop}
    {stop' : Rat} (running : ∀ g, Good g → (f g).running stop' = g.running stop)
    (round : ∀ g, Good g → g.running stop = true →
      ((f g).advance 1).poll = (f (g.advance 1).poll.1, (g.advance 1).poll.2) ∧
        Good (g.advance 1).poll.1)
    (good : Good h) (limit : Nat) :
    runUntil stop' limit (f h) = (f (runUntil stop limit h).1, (runUntil stop limit h).2) ∧
      Good (runUntil stop limit h).1 := by
  induction limit generalizing h with
  | zero => exact ⟨rfl, good⟩
  | succ limit ih =>
    have same := running h good
    cases goesOn : h.running stop with
    | false =>
      rw [goesOn] at same
      rw [runUntil_of_not_running same, runUntil_of_not_running goesOn]
      exact ⟨rfl, good⟩
    | true =>
      rw [goesOn] at same
      obtain ⟨made, kept⟩ := round h good goesOn
      rw [runUntil_round same, runUntil_round goesOn, made]
      rcases first : (h.advance 1).poll with ⟨left, _ | escape⟩
      · rw [first] at kept
        exact ih kept
      · rw [first] at kept
        exact ⟨rfl, kept⟩

/-- **More rounds allowed change nothing** in a run that has come to its end. -/
theorem runUntil_of_more {few many : Nat} (more : few ≤ many)
    (ended : Ended stop (runUntil stop few h)) : runUntil stop many h = runUntil stop few h := by
  induction few generalizing h many with
  | zero =>
    have finished : h.running stop = false := by
      rcases ended with escaped | finished
      · exact absurd rfl escaped
      · exact finished
    rw [runUntil_of_not_running finished, runUntil_of_not_running finished]
  | succ few ih =>
    obtain ⟨many, rfl⟩ : ∃ less, many = less + 1 := ⟨many - 1, by omega⟩
    cases goesOn : h.running stop with
    | false => rw [runUntil_of_not_running goesOn, runUntil_of_not_running goesOn]
    | true =>
      rw [runUntil_round goesOn] at ended ⊢
      rw [runUntil_round goesOn]
      rcases round : (h.advance 1).poll with ⟨left, _ | escape⟩
      · rw [round] at ended
        exact ih (by omega) ended
      · rfl

/-- A run to an earlier end makes the first rounds of the run to a later one. -/
theorem runUntil_later (earlier : stop ≤ late) (limit : Nat) (h : Host σ) :
    ∃ left ≤ limit,
      runUntil late limit h = followedBy (runUntil stop limit h) (runUntil late left) := by
  induction limit generalizing h with
  | zero => exact ⟨0, Nat.le_refl 0, rfl⟩
  | succ limit ih =>
    cases goesOn : h.running stop with
    | false =>
      refine ⟨limit + 1, Nat.le_refl _, ?_⟩
      rw [runUntil_of_not_running goesOn]
      rfl
    | true =>
      rw [runUntil_round goesOn, runUntil_round (running_of_earlier earlier goesOn)]
      rcases (h.advance 1).poll with ⟨left, _ | escape⟩
      · obtain ⟨rest, fewer, run⟩ := ih left
        exact ⟨rest, Nat.le_succ_of_le fewer, run⟩
      · exact ⟨0, Nat.zero_le _, rfl⟩

/-- If a run comes to its end, the same run to an earlier end does. -/
theorem ended_of_later (earlier : stop ≤ late) (ended : Ended late (runUntil late limit h)) :
    Ended stop (runUntil stop limit h) := by
  induction limit generalizing h with
  | zero =>
    rcases ended with escaped | finished
    · exact Or.inl escaped
    · refine Or.inr (Bool.eq_false_iff.mpr ?_)
      intro goesOn
      have further : h.running late = true := running_of_earlier earlier goesOn
      exact Bool.false_ne_true (finished.symm.trans further)
  | succ limit ih =>
    cases goesOn : h.running stop with
    | false =>
      rw [runUntil_of_not_running goesOn]
      exact Or.inr goesOn
    | true =>
      rw [runUntil_round (running_of_earlier earlier goesOn)] at ended
      rw [runUntil_round goesOn]
      rcases round : (h.advance 1).poll with ⟨left, _ | escape⟩
      · rw [round] at ended
        exact ih ended
      · exact Or.inl (Option.some_ne_none escape)

/-- **A run that comes to its end is a run to an earlier end and what follows it.** -/
theorem runUntil_split (earlier : stop ≤ late) (ended : Ended late (runUntil late limit h)) :
    runUntil late limit h = followedBy (runUntil stop limit h) (runUntil late limit) := by
  obtain ⟨left, fewer, split⟩ := runUntil_later earlier limit h
  rw [split] at ended ⊢
  rcases first : runUntil stop limit h with ⟨middle, _ | escape⟩
  · rw [first] at ended
    exact (runUntil_of_more fewer ended).symm
  · rfl

end Loop

/-! ## Clocks that show the rounds -/

section Metered

variable [InputSource σ] {h : Host σ} {start : Int} {ms limit : Nat}

/-- A clock that shows the milliseconds of the next rounds, and no others. -/
def Metered (start : Int) (ms : Nat) (h : Host σ) : Prop :=
  ∀ k ≤ ms, (tick^[k] h).clock = ((start + k : Int) : Rat)

theorem Metered.clock (metered : Metered start ms h) : h.clock = (start : Rat) := by
  exact (metered 0 (Nat.zero_le ms)).trans (Binary64.reading_zero start)

theorem Metered.tick (metered : Metered start (ms + 1) h) : Metered (start + 1) ms h.tick := by
  intro k before
  have later := metered (k + 1) (by omega)
  rw [Function.iterate_succ_apply] at later
  rw [later]
  congr 1
  push_cast
  omega

/-- Where every round moves the clock by its own millisecond only, the clock shows the
rounds, as long as its readings are exact. -/
theorem metered_of_rounds (Regular : Host σ → Prop)
    (round : ∀ g, Regular g → g.tick.clock = Binary64.add g.clock 1 ∧ Regular g.tick)
    (regular : Regular h) (clock : h.clock = (start : Rat))
    (low : -9007199254740992 ≤ start) (high : start + ms ≤ 9007199254740992) :
    Metered start ms h := by
  have both : ∀ k ≤ ms,
      (Host.tick^[k] h).clock = ((start + k : Int) : Rat) ∧ Regular (Host.tick^[k] h) := by
    intro k
    induction k with
    | zero =>
      intro _
      exact ⟨clock.trans (Binary64.reading_zero start).symm, regular⟩
    | succ k ih =>
      intro before
      obtain ⟨reads, regular⟩ := ih (by omega)
      obtain ⟨moved, next⟩ := round _ regular
      rw [Function.iterate_succ_apply']
      refine ⟨?_, next⟩
      have passed : Binary64.add ((start + k : Int) : Rat) ((1 : Nat) : Rat) =
          ((start + k + (1 : Nat) : Int) : Rat) := Binary64.add_exact (by omega) (by omega)
      have later : (start + (k + 1 : Nat) : Int) = start + k + (1 : Nat) := by omega
      rw [moved, reads, later]
      exact passed
  exact fun k before => (both k before).1

/-- A source that leaves the clock alone leaves it to the rounds. -/
theorem KeepsClock.metered (keeps : KeepsClock h.input) (clock : h.clock = (start : Rat))
    (low : -9007199254740992 ≤ start) (high : start + ms ≤ 9007199254740992) :
    Metered start ms h := by
  apply metered_of_rounds (fun g => KeepsClock g.input) ?_ keeps clock low high
  intro g keeps
  rw [Host.tick, poll_clock, poll_input]
  exact ⟨keeps.clock_ask _, keeps.source_ask _⟩

/-- **A run on such a clock comes to its end**, after no more rounds than milliseconds. -/
theorem runUntil_metered {stop : Int} (metered : Metered start ms h) (ends : stop = start + ms)
    (enough : ms ≤ limit) :
    (∃ k ≤ ms, (runUntil (stop : Rat) limit h).1 = Host.tick^[k] h) ∧
      Ended (stop : Rat) (runUntil (stop : Rat) limit h) := by
  induction ms generalizing h start limit with
  | zero =>
    have finished : h.running (stop : Rat) = false := by
      have late : ¬ (start : Rat) < stop := by
        rw [Rat.intCast_lt_intCast]
        omega
      rw [running, metered.clock, decide_eq_false late, Bool.false_and]
    rw [runUntil_of_not_running finished]
    exact ⟨⟨0, Nat.le_refl 0, rfl⟩, Or.inr finished⟩
  | succ ms ih =>
    cases goesOn : h.running (stop : Rat) with
    | false =>
      rw [runUntil_of_not_running goesOn]
      exact ⟨⟨0, Nat.zero_le _, rfl⟩, Or.inr goesOn⟩
    | true =>
      obtain ⟨limit, rfl⟩ : ∃ less, limit = less + 1 := ⟨limit - 1, by omega⟩
      rw [runUntil_round goesOn]
      have next := metered.tick
      rcases round : (h.advance 1).poll with ⟨left, _ | escape⟩
      · have left_eq : left = h.tick := by rw [Host.tick, round]
        subst left_eq
        obtain ⟨⟨k, within, run⟩, ended⟩ := ih next (by omega) (by omega : ms ≤ limit)
        refine ⟨⟨k + 1, by omega, ?_⟩, ended⟩
        rw [Function.iterate_succ_apply]
        exact run
      · refine ⟨⟨1, by omega, ?_⟩, Or.inl (Option.some_ne_none escape)⟩
        rw [Function.iterate_one, Host.tick, round]
        rfl

/-- Such a run does not carry the clock past its end. -/
theorem runUntil_metered_clock {stop : Int} (metered : Metered start ms h)
    (ends : stop = start + ms) (enough : ms ≤ limit) :
    (runUntil (stop : Rat) limit h).1.clock ≤ (stop : Rat) := by
  obtain ⟨⟨k, within, run⟩, -⟩ := runUntil_metered metered ends enough
  rw [run, metered k within, Rat.intCast_le_intCast]
  omega

end Metered

/-! ## Composition -/

section Composition

variable [InputSource σ] {h : Host σ} {start : Int} {a b : Nat}

/-- The end of a run from an exact clock reading. -/
theorem runFor_eq_runUntil (ms : Nat) (clock : h.clock = (start : Rat))
    (low : -9007199254740992 ≤ start) (high : start + ms < 9007199254740992) :
    h.runFor ms = runUntil ((start + ms : Int) : Rat) roundLimit h := by
  rw [runFor, clock, Binary64.add_exact low (by omega)]

/-- **Runs of simulated time compose.**  A run of `a + b` milliseconds from an exact clock
reading, if it comes to its end at all, is a run of `a` milliseconds and, unless an error
has escaped from it, one of `b` milliseconds from there, provided that the first has not
carried the clock past its own end or else has halted the host.  With a source that leaves
the clock alone this is the case, and every such run comes to its end. -/
theorem runFor_composes (clock : h.clock = (start : Rat)) (low : -9007199254740992 ≤ start)
    (high : start + a + b < 9007199254740992) :
    (Ended ((start + a + b : Int) : Rat) (h.runFor ((a + b : Nat) : Rat)) →
      (h.runFor a).1.halted = true ∨ (h.runFor a).1.clock ≤ ((start + a : Int) : Rat) →
        h.runFor ((a + b : Nat) : Rat) = followedBy (h.runFor a) fun left => left.runFor b) ∧
    (KeepsClock h.input →
      Ended ((start + a + b : Int) : Rat) (h.runFor ((a + b : Nat) : Rat)) ∧
        (h.runFor a).1.clock ≤ ((start + a : Int) : Rat)) := by
  have sum : (start + a + b : Int) = start + (a + b : Nat) := by omega
  have whole := runFor_eq_runUntil (a + b) clock low (by omega)
  have first := runFor_eq_runUntil a clock low (by omega)
  rw [← sum] at whole
  rw [whole, first]
  refine ⟨?_, ?_⟩
  · intro ended inTime
    have earlier : ((start + a : Int) : Rat) ≤ ((start + a + b : Int) : Rat) := by
      rw [Rat.intCast_le_intCast]
      omega
    have finished := ended_of_later earlier ended
    rw [runUntil_split earlier ended]
    rcases run : runUntil ((start + a : Int) : Rat) roundLimit h with ⟨left, _ | escape⟩
    · rw [run] at finished inTime
      rw [followedBy_none, followedBy_none]
      cases halted : left.halted with
      | true => rw [runFor, runUntil_of_halted halted, runUntil_of_halted halted]
      | false =>
        have reached : ¬ left.clock < ((start + a : Int) : Rat) := by
          rcases finished with escaped | finished
          · exact absurd rfl escaped
          · simpa [running, halted] using finished
        have within : left.clock ≤ ((start + a : Int) : Rat) := by
          simpa [halted] using inTime
        have clock : left.clock = ((start + a : Int) : Rat) :=
          le_antisymm within (not_lt.mp reached)
        exact (runFor_eq_runUntil b clock (by omega) high).symm
    · rw [followedBy_some, followedBy_some]
  · intro keeps
    have limit : a + b ≤ roundLimit := by
      rw [roundLimit]
      omega
    refine ⟨?_, ?_⟩
    · exact (runUntil_metered (keeps.metered clock low (by omega)) sum limit).2
    · exact runUntil_metered_clock (keeps.metered clock low (by omega)) rfl (by omega)

end Composition

/-- A script looks at the clock and leaves it alone. -/
theorem keepsClock_pressScript (source : PressScript) : KeepsClock source :=
  ⟨fun _ => True, trivial, fun _ _ _ => ⟨rfl, trivial⟩⟩

/-- A host that raises the fault of its fifth instruction, and has a key pressed before. -/
def keyedClears : Host PressScript :=
  create { watched with mode := .raise }
    (Machine.loaded 1000 (RandomStream.cycle []) fourClears) 1000
    { pending := [{ key := 5, atMs := 1004 }] }

/-- The key is pressed in the first of two runs, and the fault escapes from the second as
from the single run. -/
theorem runFor_composes_keyedClears :
    keyedClears.runFor ((10 + 90 : Nat) : Rat) =
        followedBy (keyedClears.runFor (10 : Nat)) (fun left => left.runFor (90 : Nat)) ∧
      (keyedClears.runFor (10 : Nat)).1.machine.latch.key = some 5 ∧
      (keyedClears.runFor ((10 + 90 : Nat) : Rat)).2 =
        some (.fault (.invalidInstruction 0x208 0)) := by
  have low : (-9007199254740992 : Int) ≤ 1000 := by decide
  have high : (1000 : Int) + (10 : Nat) + (90 : Nat) < 9007199254740992 := by decide
  have clock : keyedClears.clock = ((1000 : Int) : Rat) := rfl
  obtain ⟨composes, inTime⟩ := runFor_composes clock low high
  obtain ⟨ended, within⟩ := inTime (keepsClock_pressScript _)
  exact ⟨composes ended (Or.inr within), by decide +kernel, by decide +kernel⟩

/-! ## Runs that do not compose -/

/-- A program that jumps to itself. -/
def standing : List Rat := [0x12, 0x00]

/-- A host around that program, and a source that lets five milliseconds pass in every
round. -/
def hurried : Host AnswerList :=
  create watched (Machine.loaded 0 (RandomStream.cycle []) standing) 0
    { answers := [], tick := some 5 }

/-- A host around that program without keys, its clock just below the exact readings. -/
def farBelow : Host Unit :=
  create watched (Machine.loaded (-9007199254740994) (RandomStream.cycle []) standing)
    (-9007199254740994) ()

/-- **Not all runs compose.**  A source that carries the clock past the end of the first
run has the second begin late, so two runs of a millisecond make two rounds, and one of two
milliseconds makes one.  So it is with a clock below the exact readings, where the first
millisecond counts for two. -/
theorem runFor_one_twice :
    ((hurried.runFor ((1 + 1 : Nat) : Rat)).1.clock = 6 ∧
      (followedBy (hurried.runFor (1 : Nat)) fun left => left.runFor (1 : Nat)).1.clock = 12) ∧
    (farBelow.runFor ((1 + 1 : Nat) : Rat)).1.clock = -9007199254740992 ∧
      (followedBy (farBelow.runFor (1 : Nat)) fun left => left.runFor (1 : Nat)).1.clock =
        -9007199254740991 := by
  refine ⟨⟨?_, ?_⟩, ?_, ?_⟩ <;> decide +kernel

end Chip8.Host
