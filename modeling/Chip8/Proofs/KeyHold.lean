/-
# Chip8.Proofs.KeyHold -- how long a key is held

Whatever is done to the clock between rounds, the latch is decided by two things: the last
round that was given a key, and the keyless rounds since.  A key is held until a keyless
round comes when its hold is over (`latched_iff_heldSince`); the induction on the moves
keeps the time of the press along with the key (`latchAfter_moved`).

Whether a hold is over is worked out from the two clock readings, and rounded once
(`Latch.holdOver`).  It is over at every reading 200 milliseconds after the press or later,
and at no reading that is more than `2 ^ -46` milliseconds short of that; between whole
readings it is over exactly from 200 milliseconds on.  Readings in between there are, and
the key goes early there (`released_early`).
-/
import Chip8.Proofs.BareStepping
import Chip8.Proofs.Rounding

set_option autoImplicit false

namespace Chip8

/-! ## Holds -/

namespace Latch

/-- Whether the hold of a key pressed at one time is over at another. -/
def holdOver (pressedAt now : Rat) : Bool := (Binary64.sub? now pressedAt).any (standardHold ≤ ·)

section Readings

variable {pressedAt now : Rat} (finite : Binary64.beyondRange pressedAt = false)
  (finite' : Binary64.beyondRange now = false)

include finite finite'

theorem holdOver_eq :
    holdOver pressedAt now = decide (200 ≤ Binary64.round (now - pressedAt)) := by
  rw [holdOver, Binary64.sub?, finite, finite']
  rfl

/-- A hold is over after 200 milliseconds. -/
theorem holdOver_of_le (late : pressedAt + 200 ≤ now) : holdOver pressedAt now = true := by
  rw [holdOver_eq finite finite', decide_eq_true_eq]
  apply Binary64.intCast_le_round (n := 200) (by decide)
  push_cast
  linarith

/-- A hold is not over earlier, but for a difference lost in rounding. -/
theorem le_of_holdOver (elapsed : holdOver pressedAt now = true) :
    pressedAt + 200 ≤ now + 1 / 2 ^ 46 := by
  rw [holdOver_eq finite finite', decide_eq_true_eq] at elapsed
  rcases le_or_gt 256 (now - pressedAt) with long | short
  · norm_num
    linarith
  · have positive : 0 < now - pressedAt := Binary64.pos_of_round_pos (by linarith)
    have rounded := Binary64.round_le_of_lt_zpow (e := 7) positive (by norm_num; exact short)
      (by decide) (Binary64.beyondRange_of_le_exactLimit (by linarith) (by linarith))
    norm_num at rounded ⊢
    linarith

/-- A hold that is over stays over, since rounding keeps the order of differences. -/
theorem holdOver_of_later {later : Rat} (finite'' : Binary64.beyondRange later = false)
    (after : now ≤ later) (elapsed : holdOver pressedAt now = true) :
    holdOver pressedAt later = true := by
  rw [holdOver_eq finite finite', decide_eq_true_eq] at elapsed
  rw [holdOver_eq finite finite'', decide_eq_true_eq]
  exact elapsed.trans (Binary64.round_mono (sub_le_sub_right after _))

end Readings

/-- Between whole readings a hold is over exactly from 200 milliseconds on. -/
theorem holdOver_intCast {pressedAt now : Int}
    (finite : Binary64.beyondRange (pressedAt : Rat) = false)
    (finite' : Binary64.beyondRange (now : Rat) = false) :
    holdOver (pressedAt : Rat) (now : Rat) = decide (pressedAt + 200 ≤ now) := by
  rw [Bool.eq_iff_iff, decide_eq_true_eq]
  constructor
  · intro elapsed
    have late := le_of_holdOver finite finite' elapsed
    have less : ((pressedAt + 200 : Int) : Rat) < ((now + 1 : Int) : Rat) := by
      push_cast
      norm_num at late ⊢
      linarith
    have whole : pressedAt + 200 < now + 1 := by exact_mod_cast less
    omega
  · intro late
    apply holdOver_of_le finite finite'
    exact_mod_cast late

/-- A keyless round empties a latch whose hold is over. -/
theorem answered_held (key pressedAt now : Rat) :
    ({ key := some key, pressedAt, holdTime := standardHold } : Latch).answered none now =
      { key := if holdOver pressedAt now then none else some key
        pressedAt
        holdTime := standardHold } := by
  have gate : ({ key := some key, pressedAt, holdTime := standardHold } : Latch).canRelease now =
      holdOver pressedAt now := rfl
  rw [answered, gate]
  cases holdOver pressedAt now <;> rfl

end Latch

namespace Host

variable {σ : Type} [InputSource σ]

/-! ## Rounds since a press -/

/-- The key that a host is given in its next round. -/
def keyGiven? (h : Host σ) : Option Rat := (InputSource.ask h.input h.clock).key

/-- The time at which the source has answered in the next round of a host. -/
def answerTime (h : Host σ) : Rat := (InputSource.ask h.input h.clock).clock

theorem poll_latch_eq (h : Host σ) :
    h.poll.1.machine.latch = h.machine.latch.answered h.keyGiven? h.answerTime := poll_latch

/-- Move `i` was the last round before move `n` that was given a key, namely this one, and
no round since has come when its hold was over. -/
structure HeldSince (h : Host σ) (moves : Nat → Move) (n i : Nat) (key : Rat) : Prop where
  before : i < n
  round : moves i = .poll
  pressed : (h.moved moves i).keyGiven? = some key
  keyless : ∀ j, i < j → j < n → moves j = .poll → (h.moved moves j).keyGiven? = none
  within : ∀ j, i < j → j < n → moves j = .poll →
    Latch.holdOver (h.moved moves i).answerTime (h.moved moves j).answerTime = false

section Moves

variable {h : Host σ} {moves : Nat → Move} {n i : Nat} {key : Rat}

/-- There is one press at most that a latch can be held since. -/
theorem HeldSince.unique {i' : Nat} {key' : Rat} (held : HeldSince h moves n i key)
    (held' : HeldSince h moves n i' key') : i = i' := by
  rcases Nat.lt_trichotomy i i' with earlier | same | later
  · have keyless := held.keyless i' earlier held'.before held'.round
    rw [held'.pressed] at keyless
    cases keyless
  · exact same
  · have keyless := held'.keyless i later held.before held.round
    rw [held.pressed] at keyless
    cases keyless

/-- What holds before a move that is no press holds after it, if the hold is not over. -/
theorem HeldSince.succ (held : HeldSince h moves n i key)
    (keyless : moves n = .poll → (h.moved moves n).keyGiven? = none)
    (within : moves n = .poll →
      Latch.holdOver (h.moved moves i).answerTime (h.moved moves n).answerTime = false) :
    HeldSince h moves (n + 1) i key where
  before := Nat.lt_succ_of_lt held.before
  round := held.round
  pressed := held.pressed
  keyless j after before := by
    rcases Nat.lt_succ_iff_lt_or_eq.mp before with earlier | rfl
    · exact held.keyless j after earlier
    · exact keyless
  within j after before := by
    rcases Nat.lt_succ_iff_lt_or_eq.mp before with earlier | rfl
    · exact held.within j after earlier
    · exact within

/-- What holds after a move that is no press held before it. -/
theorem HeldSince.of_succ (held : HeldSince h moves (n + 1) i key)
    (keyless : moves n = .poll → (h.moved moves n).keyGiven? = none) :
    HeldSince h moves n i key := by
  have before : i < n := by
    rcases Nat.lt_succ_iff_lt_or_eq.mp held.before with earlier | rfl
    · exact earlier
    · have pressed := held.pressed
      rw [keyless held.round] at pressed
      cases pressed
  exact ⟨before, held.round, held.pressed,
    fun j after earlier => held.keyless j after (Nat.lt_succ_of_lt earlier),
    fun j after earlier => held.within j after (Nat.lt_succ_of_lt earlier)⟩

/-- The latch that the moves before move `n` have left: held since a press, with the time of
that press, or empty, with no press it could be held since. -/
inductive LatchAfter (h : Host σ) (moves : Nat → Move) (n : Nat) : Latch → Prop where
  | held (i : Nat) (key : Rat) (since : HeldSince h moves n i key) :
      LatchAfter h moves n
        { key := some key
          pressedAt := (h.moved moves i).answerTime
          holdTime := Latch.standardHold }
  | empty (pressedAt : Rat) (unheld : ∀ i key, ¬ HeldSince h moves n i key) :
      LatchAfter h moves n { key := none, pressedAt, holdTime := Latch.standardHold }

/-- A move that is no round leaves the latch. -/
theorem LatchAfter.succ_of_not_poll {latch : Latch} (after : LatchAfter h moves n latch)
    (other : moves n ≠ .poll) : LatchAfter h moves (n + 1) latch := by
  cases after with
  | held i key since =>
    exact .held i key (since.succ (fun round => absurd round other) fun round => absurd round other)
  | empty pressedAt unheld =>
    apply LatchAfter.empty
    intro i key since
    exact unheld i key (since.of_succ fun round => absurd round other)

theorem LatchAfter.holdTime {latch : Latch} (after : LatchAfter h moves n latch) :
    latch.holdTime = Latch.standardHold := by
  cases after <;> rfl

/-- **A round keeps the latch in order.** -/
theorem LatchAfter.succ_of_poll {latch : Latch} (after : LatchAfter h moves n latch)
    (round : moves n = .poll) :
    LatchAfter h moves (n + 1)
      (latch.answered (h.moved moves n).keyGiven? (h.moved moves n).answerTime) := by
  cases given : (h.moved moves n).keyGiven? with
  | some key =>
    have since : HeldSince h moves (n + 1) n key :=
      ⟨Nat.lt_succ_self n, round, given, fun j after before => absurd before (by omega),
        fun j after before => absurd before (by omega)⟩
    rw [Latch.answered, Latch.press, after.holdTime]
    exact .held n key since
  | none =>
    cases after with
    | held i key since =>
      rw [Latch.answered_held]
      cases elapsed : Latch.holdOver (h.moved moves i).answerTime (h.moved moves n).answerTime with
      | true =>
        apply LatchAfter.empty
        intro i' key' since'
        -- the press could only be the one whose hold is over
        obtain rfl := since.unique (since'.of_succ fun _ => given)
        have within := since'.within n since.before (Nat.lt_succ_self n) round
        rw [elapsed] at within
        cases within
      | false => exact .held i key (since.succ (fun _ => given) fun _ => elapsed)
    | empty pressedAt unheld =>
      rw [Latch.answered_none rfl]
      apply LatchAfter.empty
      intro i key since
      exact unheld i key (since.of_succ fun _ => given)

variable (h moves) in
/-- **The moves keep the latch in order**, if it was empty at first. -/
theorem latchAfter_moved (empty : h.machine.latch.key = none)
    (standard : h.machine.latch.holdTime = Latch.standardHold) (n : Nat) :
    LatchAfter h moves n (h.moved moves n).machine.latch := by
  induction n with
  | zero =>
    have latch : h.machine.latch =
        { key := none, pressedAt := h.machine.latch.pressedAt, holdTime := Latch.standardHold } := by
      rw [← empty, ← standard]
    rw [Host.moved, latch]
    apply LatchAfter.empty
    intro i key since
    exact absurd since.before (Nat.not_lt_zero i)
  | succ n ih =>
    rw [Host.moved]
    cases move : moves n with
    | setClock time | advance ms => exact ih.succ_of_not_poll (by simp [move])
    | poll =>
      rw [Host.move, poll_latch_eq]
      exact ih.succ_of_poll move

theorem LatchAfter.key_eq_some_iff {latch : Latch} (after : LatchAfter h moves n latch) :
    latch.key = some key ↔ ∃ i, HeldSince h moves n i key := by
  cases after with
  | held i key' since =>
    constructor
    · rintro ⟨⟩
      exact ⟨i, since⟩
    · rintro ⟨i', since'⟩
      obtain rfl := since.unique since'
      rw [← since.pressed, ← since'.pressed]
  | empty pressedAt unheld =>
    constructor
    · rintro ⟨⟩
    · rintro ⟨i, since⟩
      exact absurd since (unheld i key)

end Moves

/-! ## The round itself -/

/-- An instruction tried in a round finds the latch as the round leaves it. -/
theorem poll_machine_of_due (h : Host σ) (due : h.answered.stepDue = true) :
    h.answered.machine.latch = h.poll.1.machine.latch ∧
      ∃ shown, h.poll.1.machine = (h.answered.machine.step h.answered.clock).1.flushed shown := by
  obtain ⟨shown, machine⟩ := h.poll_machine
  rw [if_pos due] at machine
  exact ⟨poll_latch.symm, shown, machine⟩

/-- **A key is held until a keyless round comes when its hold is over.**  Whatever moves the
clock between the rounds of a host whose latch was empty, a key is latched exactly if the
last round that was given a key was given this one, and no round since has come when its
hold was over.  For finite readings a hold is over from 200 milliseconds after the press on,
and no sooner but for `2 ^ -46` milliseconds that rounding may lose, which between whole
readings it does not.  An instruction tried in a round finds the latch as the round leaves
it. -/
theorem latched_iff_heldSince (h : Host σ) (empty : h.machine.latch.key = none)
    (standard : h.machine.latch.holdTime = Latch.standardHold) (moves : Nat → Move) (n : Nat) :
    (∀ key, (h.moved moves n).machine.latch.key = some key ↔ ∃ i, HeldSince h moves n i key) ∧
    (∀ pressedAt now : Rat, Binary64.beyondRange pressedAt = false →
      Binary64.beyondRange now = false →
        (pressedAt + 200 ≤ now → Latch.holdOver pressedAt now = true) ∧
          (Latch.holdOver pressedAt now = true → pressedAt + 200 ≤ now + 1 / 2 ^ 46)) ∧
    (∀ pressedAt now : Int, Binary64.beyondRange (pressedAt : Rat) = false →
      Binary64.beyondRange (now : Rat) = false →
        Latch.holdOver (pressedAt : Rat) (now : Rat) = decide (pressedAt + 200 ≤ now)) ∧
    let before := h.moved moves n
    before.answered.stepDue = true →
      before.answered.machine.latch = before.poll.1.machine.latch ∧
        ∃ shown, before.poll.1.machine =
          (before.answered.machine.step before.answered.clock).1.flushed shown := by
  refine ⟨?_, ?_, ?_, ?_⟩
  · intro key
    exact (latchAfter_moved h moves empty standard n).key_eq_some_iff
  · intro pressedAt now finite finite'
    exact ⟨Latch.holdOver_of_le finite finite', Latch.le_of_holdOver finite finite'⟩
  · intro pressedAt now finite finite'
    exact Latch.holdOver_intCast finite finite'
  · exact poll_machine_of_due _

/-! ## Presses at given times -/

/-- A host around a program that jumps to itself, with answers for its rounds. -/
def answering (answers : List (Option Rat)) : Host AnswerList :=
  create watched (Machine.loaded 0 (RandomStream.cycle []) [0x12, 0x00]) 0 { answers, tick := none }

/-- A round at each of some times. -/
def roundsAt (times : List Rat) (n : Nat) : Move :=
  if n % 2 = 0 then .setClock (times.getD (n / 2) 0) else .poll

/-- A key pressed at 10 and another at 160: the second is held at 359, long after the hold of
the first, and at 360 there is none. -/
theorem latched_iff_heldSince_pressedTwice :
    let h := answering [some 5, none, some 7]
    let moves := roundsAt [10, 150, 160, 359, 360]
    (h.moved moves 4).machine.latch.key = some 5 ∧
      (h.moved moves 8).machine.latch.key = some 7 ∧ (∃ i, HeldSince h moves 8 i 7) ∧
      (h.moved moves 10).machine.latch.key = none ∧ ∀ key i, ¬ HeldSince h moves 10 i key := by
  intro h moves
  have first : (h.moved moves 4).machine.latch.key = some 5 := by decide +kernel
  have second : (h.moved moves 8).machine.latch.key = some 7 := by decide +kernel
  have gone : (h.moved moves 10).machine.latch.key = none := by decide +kernel
  refine ⟨first, second, ((latched_iff_heldSince h rfl rfl moves 8).1 7).mp second, gone, ?_⟩
  intro key i since
  have latched := ((latched_iff_heldSince h rfl rfl moves 10).1 key).mpr ⟨i, since⟩
  rw [gone] at latched
  cases latched

/-- **A key may go early.**  It is pressed a little after the first millisecond, and the next
round comes less than 200 milliseconds after that, by so little that the difference is
rounded to 200: the key is gone. -/
theorem released_early :
    let h := answering [some 5]
    let run := h.moved (roundsAt [1 + 3 / 2 ^ 46, 201 + 2 / 2 ^ 46])
    h.machine.latch.key = none ∧ h.machine.latch.holdTime = Latch.standardHold ∧
      (run 1).keyGiven? = some 5 ∧ (run 3).keyGiven? = none ∧
      (run 1).answerTime ≤ (run 3).answerTime ∧ (run 3).answerTime < (run 1).answerTime + 200 ∧
      (run 4).machine.latch.key = none := by
  refine ⟨rfl, rfl, ?_, ?_, ?_, ?_, ?_⟩ <;> decide +kernel

end Host

end Chip8
