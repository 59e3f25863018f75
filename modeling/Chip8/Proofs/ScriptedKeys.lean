/-
# Chip8.Proofs.ScriptedKeys -- scripted presses in a run of simulated time

In a run of simulated time a round comes after every millisecond, and a script reports at
most one press in a round.  So a press is delivered in the first round at or after its time
that no earlier press has taken: `Press.delivered` gives the presses those times, and they
are one after the other (`Press.delivered_ordered`).  The key that a round leaves in the
latch is the one delivered last, unless its hold is over (`Press.heldAt`).

`Delivering` says of a host how far it has come with its presses: those delivered are past,
the rest is what the script still holds, and the latch follows the last of the past ones
(`Latch.Follows`).  A round keeps that (`Delivering.tick`), and so every round of a run
leaves the latch as the presses say (`scripted_keys_are_held`).

This takes clock readings that are exact.  Beyond them a millisecond is rounded away or
doubled, and presses come late or early (`delivered_late`).
-/
import Chip8.Proofs.KeyHold
import Chip8.Proofs.PressOrder
import Chip8.Proofs.SplitRuns

set_option autoImplicit false

namespace Chip8

/-! ## Times of delivery -/

namespace Press

/-- The presses at the times at which rounds a millisecond apart report them, one in each
round from the one at `earliest` on, and none before its own time. -/
def delivered (earliest : Rat) : List Press → List Press
  | [] => []
  | p :: rest =>
    let time := max earliest p.atMs
    { p with atMs := time } :: delivered (time + 1) rest

/-- The key held at a time: that of the last press delivered by then, until its hold is
over. -/
def heldAt (deliveries : List Press) (now : Rat) : Option Rat :=
  ((deliveries.filter (·.atMs ≤ now)).getLast?.filter
    (now < ·.atMs + Latch.standardHold)).map (·.key)

section Deliveries

variable {earliest : Rat} {presses : List Press}

theorem delivered_keys : (delivered earliest presses).map (·.key) = presses.map (·.key) := by
  induction presses generalizing earliest with
  | nil => rfl
  | cons p rest ih => rw [delivered, List.map_cons, List.map_cons, ih]

theorem earliest_le_delivered : ∀ p ∈ delivered earliest presses, earliest ≤ p.atMs := by
  induction presses generalizing earliest with
  | nil =>
    intro p here
    cases here
  | cons p rest ih =>
    intro q here
    have first : earliest ≤ max earliest p.atMs := le_max_left _ _
    rcases List.mem_cons.mp here with rfl | later
    · exact first
    · have next := ih q later
      linarith

/-- Presses are delivered one after the other. -/
theorem delivered_ordered : (delivered earliest presses).Pairwise fun p q => p.atMs < q.atMs := by
  induction presses generalizing earliest with
  | nil => exact List.Pairwise.nil
  | cons p rest ih =>
    refine List.Pairwise.cons ?_ ih
    intro q later
    have next := earliest_le_delivered q later
    show max earliest p.atMs < q.atMs
    linarith

/-- A press whose time has come is delivered at once. -/
theorem delivered_of_due {p : Press} {rest : List Press} (due : p.atMs ≤ earliest) :
    delivered earliest (p :: rest) =
      { p with atMs := earliest } :: delivered (earliest + 1) rest := by
  rw [delivered, max_eq_left due]

/-- A round that comes before all presses delivers none. -/
theorem delivered_of_early (early : ∀ p ∈ presses.head?, earliest + 1 ≤ p.atMs) :
    delivered earliest presses = delivered (earliest + 1) presses := by
  cases presses with
  | nil => rfl
  | cons p rest =>
    have late : earliest + 1 ≤ p.atMs := early p rfl
    have later : earliest ≤ p.atMs := by linarith
    rw [delivered, delivered, max_eq_right late, max_eq_right later]

/-- Presses of one time that follow each other are delivered on successive milliseconds. -/
theorem delivered_bunched {i : Nat} {p q : Press} (first : presses[i]? = some p)
    (second : presses[i + 1]? = some q) (bunched : p.atMs = q.atMs) :
    ∃ time, (delivered earliest presses)[i]? = some { p with atMs := time } ∧
      (delivered earliest presses)[i + 1]? = some { q with atMs := time + 1 } := by
  induction presses generalizing earliest i with
  | nil => cases first
  | cons head rest ih =>
    cases i with
    | succ i => exact ih first second
    | zero =>
      obtain rfl : head = p := Option.some.inj first
      cases rest with
      | nil => cases second
      | cons next others =>
        obtain rfl : next = q := Option.some.inj second
        refine ⟨max earliest head.atMs, rfl, ?_⟩
        have due : next.atMs ≤ max earliest head.atMs + 1 := by
          have own : head.atMs ≤ max earliest head.atMs := le_max_right _ _
          linarith
        rw [delivered, delivered_of_due due]
        rfl

/-- A script polled at a time reports the press delivered then. -/
theorem poll_eq_delivered (now : Rat) :
    (({ pending := presses } : PressScript).poll now).1 =
      ((delivered now presses).find? (·.atMs = now)).map (·.key) := by
  rcases PressScript.poll_cases { pending := presses } now with
    ⟨answer, early⟩ | ⟨p, rest, here, due, answer⟩
  · have unheard : (delivered now presses).find? (·.atMs = now) = none := by
      rw [List.find?_eq_none]
      intro q here same
      cases presses with
      | nil => cases here
      | cons p rest =>
        have before : now < p.atMs := early p rfl
        have time : q.atMs = now := by simpa using same
        rw [delivered, max_eq_right before.le] at here
        rcases List.mem_cons.mp here with rfl | later
        · exact absurd time before.ne'
        · have next := earliest_le_delivered q later
          linarith
    rw [answer, unheard]
    rfl
  · have pending : presses = p :: rest := here
    rw [answer, pending, delivered_of_due due, List.find?_cons_of_pos (by simp)]
    rfl

end Deliveries

end Press

/-! ## The latch after a press -/

namespace Latch

/-- A latch at a time, by the press that it was given last: it holds the key until 200
milliseconds after the press. -/
inductive Follows (now : Int) : Option Press → Latch → Prop where
  | unpressed (pressedAt : Rat) :
      Follows now none { key := none, pressedAt, holdTime := standardHold }
  | held (key : Rat) (time : Int) (low : -9007199254740992 ≤ time) (past : time ≤ now)
      (within : now < time + 200) :
      Follows now (some { key, atMs := time })
        { key := some key, pressedAt := time, holdTime := standardHold }
  | released (key pressedAt : Rat) (time : Int) (elapsed : time + 200 ≤ now) :
      Follows now (some { key, atMs := time })
        { key := none, pressedAt, holdTime := standardHold }

namespace Follows

variable {now : Int} {last : Option Press} {l : Latch}

theorem holdTime (follows : Follows now last l) : l.holdTime = standardHold := by
  cases follows <;> rfl

theorem key_eq (follows : Follows now last l) :
    l.key = (last.filter ((now : Rat) < ·.atMs + standardHold)).map (·.key) := by
  have still : ∀ time : Int, (now : Rat) < time + standardHold ↔ now < time + 200 := by
    intro time
    rw [standardHold]
    exact_mod_cast Iff.rfl
  cases follows with
  | unpressed => rfl
  | held key time low past within => simp [still, within]
  | released key pressedAt time elapsed =>
    have late : (time : Rat) + standardHold ≤ now := by
      rw [← not_lt, still]
      omega
    simp [late]

/-- A latch follows the press that it is given. -/
theorem press (follows : Follows now last l) (key : Rat) {later : Int}
    (low : -9007199254740992 ≤ later) :
    Follows later (some { key, atMs := later }) (l.press key later) := by
  rw [Latch.press, follows.holdTime]
  exact .held key later low (le_refl later) (by omega)

/-- Without a key it follows the last press for another millisecond. -/
theorem answered_none (follows : Follows now last l) (low : -9007199254740992 ≤ now + 1)
    (high : now + 1 ≤ 9007199254740992) :
    Follows (now + 1) last (l.answered none ((now + 1 : Int) : Rat)) := by
  cases follows with
  | unpressed pressedAt =>
    rw [Latch.answered_none rfl]
    exact .unpressed pressedAt
  | released key pressedAt time elapsed =>
    rw [Latch.answered_none rfl]
    exact .released key pressedAt time (by omega)
  | held key time early past within =>
    rw [answered_held, holdOver_intCast (Binary64.beyondRange_exact early (by omega))
      (Binary64.beyondRange_exact low high)]
    by_cases elapsed : time + 200 ≤ now + 1
    · rw [decide_eq_true elapsed]
      exact .released key time time elapsed
    · rw [decide_eq_false elapsed]
      exact .held key time early (by omega) (by omega)

end Follows

end Latch

namespace Host

/-! ## Rounds of a run -/

/-- A run is made of rounds, each a millisecond after the one before, and each of a host that
is still running. -/
theorem runUntil_eq_iterate {σ : Type} [InputSource σ] (stop : Rat) (limit : Nat) (h : Host σ) :
    ∃ n, (runUntil stop limit h).1 = tick^[n] h ∧
      ∀ k < n, (tick^[k] h).running stop = true := by
  induction limit generalizing h with
  | zero => exact ⟨0, rfl, by simp⟩
  | succ limit ih =>
    cases goesOn : h.running stop with
    | false =>
      rw [runUntil_of_not_running goesOn]
      exact ⟨0, rfl, by simp⟩
    | true =>
      rw [runUntil_round goesOn]
      rcases round : (h.advance 1).poll with ⟨left, _ | escape⟩
      · obtain ⟨n, run, running⟩ := ih left
        have first : left = h.tick := by rw [tick, round]
        rw [first] at run running
        refine ⟨n + 1, by rw [first]; exact run, ?_⟩
        rintro (_ | k) before
        · exact goesOn
        · exact running k (by omega)
      · refine ⟨1, by rw [Function.iterate_one, tick, round]; rfl, ?_⟩
        intro k before
        obtain rfl : k = 0 := by omega
        exact goesOn

/-! ## Presses past and pending -/

/-- A host at a time, of whose presses some have been delivered: the script holds the
others, and the latch follows the last. -/
structure Delivering (deliveries past : List Press) (now : Int) (h : Host PressScript) :
    Prop where
  clock : h.clock = (now : Rat)
  split : deliveries = past ++ Press.delivered (now + 1) h.input.pending
  past_le : ∀ p ∈ past, p.atMs ≤ now
  whole : ∀ p ∈ h.input.pending, ∃ time : Int, p.atMs = time
  latch : Latch.Follows now past.getLast? h.machine.latch

namespace Delivering

variable {deliveries past : List Press} {now : Int} {h : Host PressScript}
  (delivering : Delivering deliveries past now h) (low : -9007199254740992 ≤ now)
  (high : now + 1 ≤ 9007199254740992)

include delivering

/-- What the latch holds is the key of the last delivery. -/
theorem latch_key : h.machine.latch.key = Press.heldAt deliveries now := by
  have all : past.filter (·.atMs ≤ (now : Rat)) = past := by
    rw [List.filter_eq_self]
    intro p here
    exact decide_eq_true (delivering.past_le p here)
  have others :
      (Press.delivered (now + 1) h.input.pending).filter (·.atMs ≤ (now : Rat)) = [] := by
    rw [List.filter_eq_nil_iff]
    intro p here
    have later := Press.earliest_le_delivered p here
    rw [decide_eq_true_eq, not_le]
    linarith
  rw [Press.heldAt, delivering.split, List.filter_append, all, others, List.append_nil]
  exact delivering.latch.key_eq

include low high

theorem clock_advance : (h.advance 1).clock = ((now + 1 : Int) : Rat) := by
  rw [advance, delivering.clock]
  exact @Binary64.add_exact _ 1 low high

/-- The next round is given the press delivered then. -/
theorem keyGiven : (h.advance 1).keyGiven? =
    (deliveries.find? (·.atMs = ((now + 1 : Int) : Rat))).map (·.key) := by
  have others : past.find? (·.atMs = ((now + 1 : Int) : Rat)) = none := by
    rw [List.find?_eq_none]
    intro p here same
    have before := delivering.past_le p here
    have time : p.atMs = now + 1 := by simpa [Binary64.reading_succ] using same
    linarith
  rw [delivering.split, List.find?_append, others, Option.none_or, ← Binary64.reading_succ,
    ← Press.poll_eq_delivered, ← delivering.clock_advance low high]
  rfl

/-- **A round delivers a press if one is due**, and the latch follows the last. -/
theorem tick : ∃ past, Delivering deliveries past (now + 1) h.tick := by
  have time := Binary64.reading_succ now
  have reading := delivering.clock_advance low high
  have clock : h.tick.clock = ((now + 1 : Int) : Rat) := by
    rw [Host.tick, poll_clock]
    exact reading
  have input : h.tick.input = (h.input.poll ((now + 1 : Int) : Rat)).2 := by
    rw [Host.tick, poll_input, ← reading]
    rfl
  have latch : h.tick.machine.latch = h.machine.latch.answered
      (h.input.poll ((now + 1 : Int) : Rat)).1 ((now + 1 : Int) : Rat) := by
    rw [Host.tick, poll_latch, ← reading]
    rfl
  rcases h.input.poll_cases ((now + 1 : Int) : Rat) with
    ⟨answer, early⟩ | ⟨p, rest, here, due, answer⟩
  · -- nothing is due, so what is pending is delivered as if from the next round on
    rw [answer] at input latch
    refine ⟨past, clock, ?_, ?_, ?_, ?_⟩
    · have later : ∀ p ∈ h.input.pending.head?, ((now + 1 : Rat)) + 1 ≤ p.atMs := by
        intro p here
        obtain ⟨own, atMs⟩ := delivering.whole p (List.mem_of_mem_head? here)
        have before := early p here
        rw [atMs] at before ⊢
        exact_mod_cast before
      rw [input, delivering.split, Press.delivered_of_early later, time]
    · intro p here
      have before := delivering.past_le p here
      rw [time]
      linarith
    · rw [input]
      exact delivering.whole
    · rw [latch]
      exact delivering.latch.answered_none (by omega) high
  · -- the first press that is pending takes this round, whatever its own time
    rw [answer] at input latch
    have due : p.atMs ≤ (now : Rat) + 1 := by rwa [time] at due
    refine ⟨past ++ [{ p with atMs := ((now + 1 : Int) : Rat) }], clock, ?_, ?_, ?_, ?_⟩
    · rw [input, delivering.split, here, Press.delivered_of_due due, time]
      simp
    · intro q passed
      rcases List.mem_append.mp passed with before | last
      · have before := delivering.past_le q before
        rw [time]
        linarith
      · rw [List.mem_singleton.mp last]
    · intro q pending
      rw [input] at pending
      exact delivering.whole q (by rw [here]; exact List.mem_cons_of_mem p pending)
    · rw [latch, List.getLast?_concat]
      exact delivering.latch.press p.key (by omega)

end Delivering

/-! ## Runs with a script -/

section Run

variable {settings : Settings} {presses : List Press} {start : Int}

/-- A new host with a script has delivered nothing. -/
theorem delivering_create (random : RandomStream) (image : List Rat)
    (whole : ∀ p ∈ presses, ∃ time : Int, p.atMs = time) :
    Delivering (Press.delivered (start + 1) (Press.sorted presses)) [] start
      (create settings (Machine.loaded start random image) start
        (PressScript.ofPresses presses)) where
  clock := rfl
  split := rfl
  past_le := by simp
  whole := by
    intro p pending
    exact whole p ((Press.sorted_perm presses).mem_iff.mp pending)
  latch := .unpressed start

theorem Delivering.iterate_tick {deliveries : List Press} {h : Host PressScript}
    (delivering : Delivering deliveries [] start h) (low : -9007199254740992 ≤ start) (k : Nat)
    (high : start + k ≤ 9007199254740992) :
    ∃ past, Delivering deliveries past (start + k) (Host.tick^[k] h) := by
  induction k with
  | zero => exact ⟨[], by simpa using delivering⟩
  | succ k ih =>
    obtain ⟨past, delivering⟩ := ih (by omega)
    rw [Function.iterate_succ_apply', Int.natCast_succ, ← Int.add_assoc]
    exact delivering.tick (by omega) (by omega)

/-- **Scripted presses are delivered in turn, and each is held.**  A new machine at an exact
clock reading is run in simulated time, once or more, with a script of presses at whole times.
The presses are delivered in their stable order, one after the other: each in the first round
at or after its time that no earlier one has taken, and presses of one time on successive
milliseconds.  Every round of the runs is given the press that is delivered at its time, and
leaves in the latch the key of the last one delivered, or none if that was 200 milliseconds
ago or there was none. -/
theorem scripted_keys_are_held (settings : Settings) (random : RandomStream) (image : List Rat)
    (whole : ∀ p ∈ presses, ∃ time : Int, p.atMs = time) (low : -9007199254740992 ≤ start) :
    let order := Press.sorted presses
    let deliveries := Press.delivered (start + 1) order
    let h := create settings (Machine.loaded start random image) start
      (PressScript.ofPresses presses)
    Press.StablySorted presses order ∧
    deliveries.map (·.key) = order.map (·.key) ∧
    (deliveries.Pairwise fun p q => p.atMs < q.atMs) ∧
    (∀ (i : Nat) (p q : Press), order[i]? = some p → order[i + 1]? = some q → p.atMs = q.atMs →
      ∃ time, deliveries[i]? = some { p with atMs := time } ∧
        deliveries[i + 1]? = some { q with atMs := time + 1 }) ∧
    (∀ j ms, let begun := tick^[j] h
      ∃ n, (begun.runFor ms).1 = tick^[n] begun ∧
        ∀ k < n, (tick^[k] begun).running (Binary64.add begun.clock ms) = true) ∧
    ∀ k : Nat, start + (k + 1 : Nat) ≤ 9007199254740992 →
      let now : Rat := ((start + (k + 1 : Nat) : Int) : Rat)
      (tick^[k + 1] h).clock = now ∧
        ((tick^[k] h).advance 1).keyGiven? = (deliveries.find? (·.atMs = now)).map (·.key) ∧
        (tick^[k + 1] h).machine.latch.key = Press.heldAt deliveries now := by
  intro order deliveries h
  have begin : Delivering deliveries [] start h := delivering_create random image whole
  refine ⟨Press.stablySorted_sorted presses, Press.delivered_keys, Press.delivered_ordered, ?_,
    ?_, ?_⟩
  · intro i p q first second bunched
    exact Press.delivered_bunched first second bunched
  · intro j ms begun
    exact runUntil_eq_iterate _ _ begun
  · intro k high now
    obtain ⟨_, before⟩ := begin.iterate_tick low k (by omega)
    obtain ⟨_, after⟩ := begin.iterate_tick low (k + 1) high
    refine ⟨after.clock, ?_, after.latch_key⟩
    have given := before.keyGiven (by omega) (by omega)
    rwa [Int.add_assoc, ← Int.natCast_succ] at given

/-- A new host around a program that jumps to itself, with a script. -/
def scripted (start : Int) (presses : List Press) : Host PressScript :=
  create watched (Machine.loaded start (RandomStream.cycle []) standing) start
    (PressScript.ofPresses presses)

/-- Of two presses at 20 the second is delivered at 21, and held until 221. -/
theorem scripted_keys_are_held_threePresses :
    let h := scripted 0 PressScript.threePresses
    (tick^[20] h).machine.latch.key = some 7 ∧
      ((tick^[20] h).advance 1).keyGiven? = some 6 ∧
      (tick^[21] h).machine.latch.key = some 6 ∧
      (tick^[220] h).machine.latch.key = some 6 ∧ (tick^[221] h).machine.latch.key = none := by
  intro h
  have whole : ∀ p ∈ PressScript.threePresses, ∃ time : Int, p.atMs = time := by
    intro p here
    simp only [PressScript.threePresses, List.mem_cons, List.not_mem_nil, or_false] at here
    rcases here with rfl | rfl | rfl
    · exact ⟨20, rfl⟩
    · exact ⟨10, rfl⟩
    · exact ⟨20, rfl⟩
  obtain ⟨-, -, -, -, -, rounds⟩ := scripted_keys_are_held watched (RandomStream.cycle []) standing
    whole (by decide : (-9007199254740992 : Int) ≤ 0)
  rw [PressScript.sorted_threePresses] at rounds
  have key : ∀ k : Nat, (0 : Int) + (k + 1 : Nat) ≤ 9007199254740992 →
      (tick^[k + 1] h).machine.latch.key = Press.heldAt _ _ := fun k high => (rounds k high).2.2
  have given : ((tick^[20] h).advance 1).keyGiven? = Option.map _ _ :=
    (rounds 20 (by decide)).2.1
  refine ⟨?_, ?_, ?_, ?_, ?_⟩
  · rw [key 19 (by decide)]
    decide +kernel
  · rw [given]
    decide +kernel
  · rw [key 20 (by decide)]
    decide +kernel
  · rw [key 219 (by decide)]
    decide +kernel
  · rw [key 220 (by decide)]
    decide +kernel

/-- **Beyond the exact clock readings presses are delivered late or early.**  Just below them
the first round comes two milliseconds after the start, where the second of two presses
should have been delivered, and it delivers the first.  Just above them the second round of
a run comes at the same reading as the first, where the first press should be held, and it
delivers the second. -/
theorem delivered_late :
    (let start : Int := -9007199254740994
      let presses : List Press := [{ key := 1, atMs := start }, { key := 2, atMs := start }]
      let left := ((scripted start presses).runFor 2).1
      (∀ p ∈ presses, ∃ time : Int, p.atMs = time) ∧ left.clock = start + 2 ∧
        left.machine.latch.key = some 1 ∧
        Press.heldAt (Press.delivered (start + 1) (Press.sorted presses)) left.clock = some 2) ∧
    let start : Int := 9007199254740991
    let presses : List Press := [{ key := 1, atMs := start }, { key := 2, atMs := start }]
    let h := scripted start presses
    let left := tick^[2] h
    (∀ k < 2, (tick^[k] h).running (Binary64.add start 3) = true) ∧ left.clock = start + 1 ∧
      left.machine.latch.key = some 2 ∧
      Press.heldAt (Press.delivered (start + 1) (Press.sorted presses)) left.clock = some 1 := by
  have sorted : ∀ start : Int,
      Press.sorted [{ key := 1, atMs := start }, { key := 2, atMs := start }] =
        [{ key := 1, atMs := start }, { key := 2, atMs := start }] := by
    intro start
    exact List.mergeSort_of_pairwise (by simp)
  refine ⟨?_, ?_⟩
  · intro start presses left
    have run : left = ((create watched (Machine.loaded start (RandomStream.cycle []) standing) start
        ({ pending := presses } : PressScript)).runFor 2).1 := by
      simp only [left, scripted, PressScript.ofPresses, presses, sorted]
    refine ⟨?_, ?_, ?_, ?_⟩
    · intro p here
      exact ⟨start, by simp [presses] at here; rcases here with rfl | rfl <;> rfl⟩
    · rw [run]; decide +kernel
    · rw [run]; decide +kernel
    · rw [run, sorted]; decide +kernel
  · intro start presses h left
    have input : h = create watched (Machine.loaded start (RandomStream.cycle []) standing) start
        ({ pending := presses } : PressScript) := by
      simp only [h, scripted, PressScript.ofPresses, presses, sorted]
    simp only [left, input, sorted, presses]
    refine ⟨?_, ?_, ?_, ?_⟩ <;> decide +kernel

end Run

end Host

end Chip8
