/-
# Chip8.Proofs.GateSpacing -- instructions and frames keep their distance

A round tries an instruction if the machine has not tried one in the last two milliseconds,
and shows a frame if it has not shown one in the last ten.  Both are gates of one kind
(`Gate`): who passes leaves the time of it behind, nobody else moves that time, and a round
passes only if it comes more than so many milliseconds later.  The difference is rounded,
but never across a whole number, so the readings themselves are so far apart
(`Binary64.add_lt_of_sub?`).

Whatever moves the clock between the rounds, forwards or backwards, the readings at which
rounds pass a gate are therefore that far apart (`Gate.isChain_readings`), and between whole
readings there is room for so many only (`Gate.length_readings_le`).  The counts of a host
tell how many have passed (`Gate.count_moved`).  `attempts_and_frames_are_spaced` says so of
instructions and frames.
-/
import Chip8.Proofs.KeyHold
import Mathlib.Data.List.Chain

set_option autoImplicit false

namespace Chip8

/-! ## Readings that are apart -/

namespace Binary64

/-- What a clock can read: a finite number, or an end of the grid. -/
def InRange (q : Rat) : Prop := beyondRange q = false ∨ q = infinity ∨ q = -infinity

/-- **Readings whose rounded difference is more than a whole number are that far apart.** -/
theorem add_lt_of_sub? {since now : Rat} {gap : Nat} (small : gap ≤ exactLimit)
    (inRange : InRange since) (inRange' : InRange now)
    (apart : (sub? now since).any ((gap : Rat) < ·) = true) : since + gap < now := by
  have far := rangeEnd_add_exactLimit_le_infinity
  have limit : (gap : Rat) ≤ exactLimit := by exact_mod_cast small
  have positive : (0 : Rat) ≤ gap := by exact_mod_cast Nat.zero_le gap
  have range := rangeEnd_pos
  -- between finite numbers it is the rounding that matters; at an end of the grid the
  -- difference is infinite, and so is the distance, or it is negative or missing
  rcases inRange' with finite' | rfl | rfl
  · have inside' := lt_rangeEnd_of_finite finite'
    rcases inRange with finite | rfl | rfl
    · rw [sub?, finite', finite] at apart
      have more : (gap : Rat) < round (now - since) := by simpa using apart
      by_contra near
      have rounded : round (now - since) ≤ ((gap : Int) : Rat) := by
        apply round_le_intCast (by simpa using small)
        push_cast
        linarith
      push_cast at rounded
      linarith
    · rw [sub?, finite', beyondRange_infinity] at apart
      have more : (gap : Rat) < -infinity := by simpa using apart
      linarith
    · linarith
  · rcases inRange with finite | rfl | rfl
    · have inside := lt_rangeEnd_of_finite finite
      linarith
    · simp [sub?, beyondRange_infinity] at apart
    · linarith
  · rw [sub?, beyondRange_neg_infinity, if_pos rfl] at apart
    split at apart
    · cases apart
    · have more : (gap : Rat) < -infinity := by simpa using apart
      linarith

/-- Whole numbers that are more than `gap` apart leave room for so many up to a bound. -/
theorem add_length_mul_le {gap : Nat} {bound : Rat} {readings : List Rat} {start : Int}
    (chain : List.IsChain (fun a b : Rat => a + gap < b) ((start : Rat) :: readings))
    (whole : ∀ r ∈ readings, ∃ time : Int, r = time ∧ r ≤ bound) (begin : (start : Rat) ≤ bound) :
    (start : Rat) + (gap + 1) * readings.length ≤ bound := by
  induction readings generalizing start with
  | nil => simpa using begin
  | cons r rest ih =>
    obtain ⟨time, rfl, within⟩ := whole r List.mem_cons_self
    rw [List.isChain_cons_cons] at chain
    have later : start + gap + 1 ≤ time := by exact_mod_cast chain.1
    have further : (start : Rat) + gap + 1 ≤ time := by exact_mod_cast later
    have others := ih chain.2 (fun r here => whole r (List.mem_cons_of_mem _ here)) within
    rw [List.length_cons]
    push_cast
    linarith

end Binary64

namespace Host

variable {σ : Type} [InputSource σ]

/-! ## Gates -/

/-- A gate of a round: which hosts pass it in their next round, and when a machine last
has.  Who passes comes more than `gap` milliseconds after that. -/
structure Gate (σ : Type) [InputSource σ] where
  passes : Host σ → Bool
  lastAt : Machine → Rat
  gap : Nat
  apart : ∀ h, Binary64.InRange (lastAt h.machine) → Binary64.InRange h.answerTime →
    passes h = true → lastAt h.machine + gap < h.answerTime
  passed : ∀ h, passes h = true → lastAt h.poll.1.machine = h.answerTime
  kept : ∀ h, passes h = false → lastAt h.poll.1.machine = lastAt h.machine

namespace Gate

variable (gate : Gate σ) (h : Host σ) (moves : Nat → Move)

/-- The readings of those rounds among the first moves that pass the gate. -/
def readings : Nat → List Rat
  | 0 => []
  | n + 1 =>
    match moves n with
    | .poll =>
      if gate.passes (h.moved moves n) then readings n ++ [(h.moved moves n).answerTime]
      else readings n
    | _ => readings n

theorem mem_readings {r : Rat} {n : Nat} (here : r ∈ gate.readings h moves n) :
    ∃ k < n, moves k = .poll ∧ r = (h.moved moves k).answerTime := by
  induction n with
  | zero => cases here
  | succ n ih =>
    have before : r ∈ gate.readings h moves n →
        ∃ k < n + 1, moves k = .poll ∧ r = (h.moved moves k).answerTime := by
      intro here
      obtain ⟨k, earlier, round⟩ := ih here
      exact ⟨k, Nat.lt_succ_of_lt earlier, round⟩
    rw [readings] at here
    split at here
    · rename_i round
      split at here
      · rcases List.mem_append.mp here with earlier | last
        · exact before earlier
        · exact ⟨n, Nat.lt_succ_self n, round, List.mem_singleton.mp last⟩
      · exact before here
    · exact before here

/-- **Rounds pass a gate at readings that are apart**, and the machine remembers the last. -/
theorem isChain_readings (start : Binary64.InRange (gate.lastAt h.machine)) (n : Nat)
    (inRange : ∀ k < n, moves k = .poll → Binary64.InRange (h.moved moves k).answerTime) :
    List.IsChain (fun a b : Rat => a + gate.gap < b)
        (gate.lastAt h.machine :: gate.readings h moves n) ∧
      (gate.lastAt h.machine :: gate.readings h moves n).getLast? =
        some (gate.lastAt (h.moved moves n).machine) ∧
      Binary64.InRange (gate.lastAt (h.moved moves n).machine) := by
  -- the time that the machine remembers ends the chain, so the next reading goes on from there
  induction n with
  | zero => exact ⟨List.IsChain.singleton _, rfl, start⟩
  | succ n ih =>
    obtain ⟨chain, last, within⟩ := ih fun k earlier => inRange k (Nat.lt_succ_of_lt earlier)
    rw [readings, moved]
    cases round : moves n with
    | setClock time | advance ms => exact ⟨chain, last, within⟩
    | poll =>
      rw [move]
      cases passes : gate.passes (h.moved moves n) with
      | false =>
        rw [gate.kept _ passes]
        exact ⟨chain, last, within⟩
      | true =>
        have now := inRange n (Nat.lt_succ_self n) round
        rw [gate.passed _ passes]
        refine ⟨?_, ?_, now⟩
        · show List.IsChain _ ((_ :: _) ++ [_])
          apply chain.append (List.IsChain.singleton _)
          rw [last]
          rintro _ ⟨⟩ _ ⟨⟩
          exact gate.apart _ within now passes
        · show ((_ :: _) ++ [_]).getLast? = _
          exact List.getLast?_concat

/-- Between whole readings there is room for so many rounds that pass. -/
theorem length_readings_le {start : Int} {bound : Rat} (n : Nat)
    (begin : gate.lastAt h.machine = start) (first : (start : Rat) ≤ bound)
    (inRange : ∀ k < n, moves k = .poll → Binary64.InRange (h.moved moves k).answerTime)
    (here : Binary64.InRange start)
    (whole : ∀ k < n, moves k = .poll →
      ∃ time : Int, (h.moved moves k).answerTime = time ∧ (time : Rat) ≤ bound) :
    ((gate.readings h moves n).length : Int) ≤ ((bound - start) / (gate.gap + 1)).floor := by
  have chain := (gate.isChain_readings h moves (begin ▸ here) n inRange).1
  rw [begin] at chain
  have room : (start : Rat) + (gate.gap + 1) * (gate.readings h moves n).length ≤ bound := by
    apply Binary64.add_length_mul_le chain _ first
    intro r listed
    obtain ⟨k, earlier, round, rfl⟩ := gate.mem_readings h moves listed
    obtain ⟨time, reads, within⟩ := whole k earlier round
    exact ⟨time, reads, by rw [reads]; exact within⟩
  have positive : (0 : Rat) < gate.gap + 1 := by positivity
  rw [Rat.le_floor_iff, le_div_iff₀ positive]
  push_cast
  linarith

/-- What is counted once in every round that passes tells how many have. -/
theorem count_moved (count : Host σ → Nat)
    (idle : ∀ g time, count { g with clock := time } = count g)
    (round : ∀ g, count g.poll.1 = if gate.passes g then count g + 1 else count g) (n : Nat) :
    count (h.moved moves n) = count h + (gate.readings h moves n).length := by
  induction n with
  | zero => rfl
  | succ n ih =>
    rw [readings, moved]
    cases moves n with
    | setClock time | advance ms => exact (idle _ _).trans ih
    | poll =>
      rw [move, round, ih]
      cases gate.passes (h.moved moves n) with
      | false => rfl
      | true => simp [Nat.add_assoc]

end Gate

/-! ## Instructions -/

theorem poll_lastStepAt (h : Host σ) :
    h.poll.1.machine.lastStepAt =
      if h.answered.stepDue then h.answerTime else h.machine.lastStepAt := by
  obtain ⟨shown, machine⟩ := h.poll_machine
  rw [machine]
  split
  · exact Machine.step_fst_lastStepAt _ _
  · rfl

/-- The gate of the step phase. -/
def stepGate : Gate σ where
  passes h := h.answered.stepDue
  lastAt m := m.lastStepAt
  gap := 2
  apart h inRange inRange' due := by
    have opens : h.answered.machine.canStep h.answerTime = true :=
      (Bool.and_eq_true_iff.mp due).2
    exact Binary64.add_lt_of_sub? (by decide) inRange inRange' opens
  passed h due := by rw [poll_lastStepAt, if_pos due]
  kept h closed := by rw [poll_lastStepAt, if_neg (by simp [closed])]

/-- The instructions that a host has tried: those that have succeeded, and the one that has
failed. -/
def triedCount (h : Host σ) : Nat := h.executed + h.fault.toList.length

theorem triedCount_poll (h : Host σ) :
    h.poll.1.triedCount = if h.answered.stepDue then h.triedCount + 1 else h.triedCount := by
  have phase : h.poll.1.triedCount = h.answered.stepPhase.1.triedCount := by
    rcases h.poll_fst_cases with left | left
    · rw [left]
    · obtain ⟨-, -, -, executed, fault⟩ := flushPhase_frame h.answered.stepPhase.1
      rw [left, triedCount, executed, fault, triedCount]
  rw [phase, triedCount, stepPhase_executed, stepPhase_fault]
  cases due : h.answered.stepDue with
  | false => rfl
  | true =>
    have unfailed : h.fault = none := by
      simpa [stepDue, halted, answered] using (Bool.and_eq_true_iff.mp due).1
    cases failed : h.answered.machine.fault? h.answered.clock with
    | none => simp [triedCount, unfailed, answered]
    | some fault => simp [triedCount, unfailed, answered]

/-! ## Frames -/

/-- Whether the next round shows a frame: no error escapes from its step phase, and one is
due. -/
def showsFrame (h : Host σ) : Bool := h.answered.stepPhase.2.isNone && h.answered.flushDue

theorem poll_of_showsFrame {h : Host σ} (shows : h.showsFrame = true) :
    h.poll.1 = h.answered.stepPhase.1.flush := by
  simp only [showsFrame, Bool.and_eq_true, Option.isNone_iff_eq_none] at shows
  obtain ⟨quiet, due⟩ := shows
  rcases phase : h.answered.stepPhase with ⟨left, escape⟩
  have flushDue := stepPhase_flushDue h.answered
  rw [phase] at quiet flushDue
  obtain rfl : escape = none := quiet
  simp only [poll, takeInput_eq, phase, flushPhase, flushDue, due, if_true]

theorem poll_of_not_showsFrame {h : Host σ} (hidden : h.showsFrame = false) :
    h.poll.1 = h.answered.stepPhase.1 := by
  rcases phase : h.answered.stepPhase with ⟨left, _ | fault⟩
  · have flushDue := stepPhase_flushDue h.answered
    rw [showsFrame, phase] at hidden
    rw [phase] at flushDue
    have closed : h.answered.flushDue = false := by simpa using hidden
    simp [poll, takeInput_eq, phase, flushPhase, flushDue, closed]
  · simp [poll, takeInput_eq, phase]

/-- The gate of the flush phase. -/
def frameGate : Gate σ where
  passes := showsFrame
  lastAt m := m.screen.lastFlushAt
  gap := 10
  apart h inRange inRange' shows := by
    have opens : h.answered.machine.canFlush h.answerTime = true :=
      (Bool.and_eq_true_iff.mp shows).2
    exact Binary64.add_lt_of_sub? (by decide) inRange inRange' opens
  passed h shows := by
    rw [poll_of_showsFrame shows]
    exact (stepPhase_frame h.answered).2.1
  kept h hidden := by
    rw [poll_of_not_showsFrame hidden, stepPhase_machine]
    split
    · exact Machine.step_fst_lastFlushAt _ _
    · rfl

theorem flushed_poll (h : Host σ) :
    h.poll.1.flushed = if h.showsFrame then h.flushed + 1 else h.flushed := by
  have before : h.answered.stepPhase.1.flushed = h.flushed := (stepPhase_frame _).2.2.2.1
  cases shows : h.showsFrame with
  | false => rw [poll_of_not_showsFrame shows, before]; rfl
  | true => rw [poll_of_showsFrame shows, flush, before]; rfl

/-- A display is shown the frames that are counted. -/
theorem presented_poll {h : Host σ} (hasDisplay : h.settings.hasDisplay = true)
    (counted : h.display.presented = h.flushed) :
    h.poll.1.display.presented = h.poll.1.flushed := by
  obtain ⟨settings, -, -, flushed, display⟩ := stepPhase_frame h.answered
  have shown : h.answered.stepPhase.1.settings.hasDisplay = true := by
    rw [settings]
    exact hasDisplay
  cases shows : h.showsFrame with
  | false =>
    rw [poll_of_not_showsFrame shows, flushed, display]
    exact counted
  | true =>
    rw [poll_of_showsFrame shows, flush]
    simp only [shown, if_true, Display.present, flushed, display]
    exact congrArg (· + 1) counted

theorem presented_moved (h : Host σ) (moves : Nat → Move)
    (hasDisplay : h.settings.hasDisplay = true) (counted : h.display.presented = h.flushed)
    (n : Nat) : (h.moved moves n).display.presented = (h.moved moves n).flushed := by
  induction n with
  | zero => exact counted
  | succ n ih =>
    rw [moved]
    cases moves n with
    | setClock time | advance ms => exact ih
    | poll => exact presented_poll (by rw [moved_settings]; exact hasDisplay) ih

/-! ## Both -/

/-- **Instructions and frames keep their distance.**  However the clock of a new machine is
moved between rounds and by the source, instructions are tried at readings of which each is
more than two milliseconds after the one before, the first more than two after the start,
whether they succeed or not; and frames are shown at readings that are more than ten apart.
So at whole readings up to a bound there are no more of them than intervals of three and of
eleven milliseconds. -/
theorem attempts_and_frames_are_spaced (settings : Settings) (random : RandomStream)
    (image : List Rat) (start : Rat) (source : σ) (moves : Nat → Move) (n : Nat) :
    let h := create settings (Machine.loaded start random image) start source
    let tried := stepGate.readings h moves n
    let shown := frameGate.readings h moves n
    (h.moved moves n).executed + (h.moved moves n).fault.toList.length = tried.length ∧
    (h.moved moves n).flushed = shown.length ∧
    (settings.hasDisplay = true → (h.moved moves n).display.presented = shown.length) ∧
    (Binary64.InRange start →
      (∀ k < n, moves k = .poll → Binary64.InRange (h.moved moves k).answerTime) →
        List.IsChain (fun a b : Rat => a + 2 < b) (start :: tried) ∧
        List.IsChain (fun a b : Rat => a + 10 < b) (start :: shown) ∧
        ∀ (t₀ : Int) (bound : Rat), start = t₀ → (t₀ : Rat) ≤ bound →
          (∀ k < n, moves k = .poll →
            ∃ time : Int, (h.moved moves k).answerTime = time ∧ (time : Rat) ≤ bound) →
          (tried.length : Int) ≤ ((bound - t₀) / 3).floor ∧
          (shown.length : Int) ≤ ((bound - t₀) / 11).floor) := by
  intro h tried shown
  have tries : (h.moved moves n).triedCount = h.triedCount + tried.length :=
    stepGate.count_moved h moves triedCount (fun _ _ => rfl) triedCount_poll n
  have frames : (h.moved moves n).flushed = h.flushed + shown.length :=
    frameGate.count_moved h moves flushed (fun _ _ => rfl) flushed_poll n
  have flushed : (h.moved moves n).flushed = shown.length := frames.trans (Nat.zero_add _)
  refine ⟨tries.trans (Nat.zero_add _), flushed, ?_, ?_⟩
  · intro hasDisplay
    rw [presented_moved h moves hasDisplay rfl n, flushed]
  · intro first inRange
    refine ⟨?_, ?_, ?_⟩
    · exact (stepGate.isChain_readings h moves first n inRange).1
    · exact (frameGate.isChain_readings h moves first n inRange).1
    · rintro t₀ bound rfl begin whole
      have step := stepGate.length_readings_le h moves n rfl begin inRange first whole
      have frame := frameGate.length_readings_le h moves n rfl begin inRange first whole
      norm_num [stepGate, frameGate] at step frame
      exact ⟨step, frame⟩

/-- A program of four instructions that fails at its fifth, and a source that puts the clock
back by a millisecond in every round. -/
def putBack : Host AnswerList :=
  create watched (Machine.loaded 0 (RandomStream.cycle []) fourClears) 0
    { answers := [], tick := some (-1) }

/-- Its rounds come at 3, 2, 6, 9, 12, 15 and 14.  Five instructions are tried, the last in
vain, and one frame is shown: no more would have had room. -/
theorem attempts_and_frames_are_spaced_putBack :
    let moves := roundsAt [4, 3, 7, 10, 13, 16, 15]
    let tried := stepGate.readings putBack moves 14
    let shown := frameGate.readings putBack moves 14
    tried = [3, 6, 9, 12, 15] ∧ shown = [12] ∧
      List.IsChain (fun a b : Rat => a + 2 < b) (0 :: tried) ∧
      List.IsChain (fun a b : Rat => a + 10 < b) (0 :: shown) ∧
      (putBack.moved moves 14).executed = 4 ∧ (putBack.moved moves 14).halted = true ∧
      (tried.length : Int) ≤ (((15 : Rat) - (0 : Int)) / 3).floor ∧
      (shown.length : Int) ≤ (((15 : Rat) - (0 : Int)) / 11).floor := by
  intro moves tried shown
  have inRange : ∀ k < 14, Binary64.beyondRange (putBack.moved moves k).answerTime = false := by
    decide +kernel
  have whole : ∀ k < 14, let time := (putBack.moved moves k).answerTime
      time = (time.floor : Rat) ∧ (time.floor : Rat) ≤ 15 := by
    decide +kernel
  obtain ⟨-, -, -, spaced⟩ := attempts_and_frames_are_spaced watched (RandomStream.cycle [])
    fourClears 0 ({ answers := [], tick := some (-1) } : AnswerList) moves 14
  obtain ⟨tries, frames, room⟩ := spaced (Or.inl (by decide +kernel))
    fun k before _ => Or.inl (inRange k before)
  obtain ⟨most, most'⟩ := room 0 15 rfl (by norm_num)
    fun k before _ => ⟨_, whole k before⟩
  exact ⟨by decide +kernel, by decide +kernel, tries, frames, by decide +kernel,
    by decide +kernel, most, most'⟩

end Host

end Chip8
