/-
# Chip8.Proofs.Escapes -- what escapes from a round

Two kinds of error could end a round: a latch released too early, and a fault.  A latch is
released only when its hold is over, and a hold that is over stays over
(`Latch.holdOver_mono`), so the first never escapes, even from a clock that moves on between
the question and the release.

A fault escapes in the mode `raise` only, and once only, since it halts the host.  It tells
of the machine that it has stopped (`Machine.Blames`): a fault of memory names the first of
the addresses needed by the step that is outside memory, and the others the place of the
instruction (`Machine.InBounds.blames`).

In the mode `record` the fault is logged instead, as the only line of its kind
(`Host.ErrorsLogged.moved`).
-/
import Chip8.Proofs.Failure
import Chip8.Proofs.FaultModes
import Chip8.Proofs.GateSpacing
import Chip8.Proofs.History

set_option autoImplicit false

namespace Chip8

/-! ## Keys -/

/-- **A hold that is over stays over**, at the ends of the grid as well. -/
theorem Latch.holdOver_mono {pressedAt early late : Rat} (inRange : Binary64.InRange early)
    (inRange' : Binary64.InRange late) (later : early ≤ late)
    (elapsed : holdOver pressedAt early = true) : holdOver pressedAt late = true := by
  have far := Binary64.rangeEnd_add_exactLimit_le_infinity
  have limit : (200 : Rat) ≤ Binary64.exactLimit := by
    exact_mod_cast (by decide : 200 ≤ Binary64.exactLimit)
  have range := Binary64.rangeEnd_pos
  have hold : standardHold = 200 := rfl
  -- at the lower end of the grid no hold is over, and at the upper one every hold is that was
  -- over before
  have bottom : holdOver pressedAt (-Binary64.infinity) = false := by
    rw [holdOver, Binary64.sub?, Binary64.beyondRange_neg_infinity, if_pos rfl]
    split
    · rfl
    · simp only [Option.any_some, hold, decide_eq_false_iff_not, not_le]
      linarith
  rcases inRange with finite | rfl | rfl
  · have inside := Binary64.lt_rangeEnd_of_finite finite
    rcases inRange' with finite' | rfl | rfl
    · cases pressed : Binary64.beyondRange pressedAt with
      | true =>
        rw [holdOver, Binary64.sub?, finite, pressed] at elapsed
        rw [holdOver, Binary64.sub?, finite', pressed]
        exact elapsed
      | false => exact holdOver_of_later pressed finite finite' later elapsed
    · rw [holdOver, Binary64.sub?, Binary64.beyondRange_infinity, if_pos rfl]
      split
      · rename_i same
        subst same
        rw [holdOver, Binary64.sub?, finite, Binary64.beyondRange_infinity] at elapsed
        simp only [Bool.false_eq_true, if_false, if_true, Option.any_some, hold,
          decide_eq_true_eq] at elapsed
        linarith
      · simp only [Option.any_some, hold, decide_eq_true_eq]
        linarith
    · linarith
  · have same : late = Binary64.infinity := by
      rcases inRange' with finite' | same | rfl
      · have inside := Binary64.lt_rangeEnd_of_finite finite'
        linarith
      · exact same
      · linarith
    rw [same]
    exact elapsed
  · rw [bottom] at elapsed
    cases elapsed

theorem Latch.canRelease_mono {l : Latch} {early late : Rat} (standard : l.holdTime = standardHold)
    (inRange : Binary64.InRange early) (inRange' : Binary64.InRange late) (later : early ≤ late)
    (elapsed : l.canRelease early = true) : l.canRelease late = true := by
  rw [canRelease, standard, Bool.and_eq_true] at elapsed ⊢
  exact ⟨elapsed.1, holdOver_mono inRange inRange' later elapsed.2⟩

/-! ## Addresses -/

/-- The first address outside memory in a run of addresses that leaves memory. -/
theorem find?_range'_outside {start count : Nat} (any : 0 < count)
    (beyond : 0x1000 < start + count) :
    (List.range' start count).find? (0x1000 ≤ ·) = some (max start 0x1000) := by
  induction count generalizing start with
  | zero => omega
  | succ count ih =>
    rw [List.range'_succ, List.find?_cons]
    by_cases outside : 0x1000 ≤ start
    · simp only [outside, decide_true]
      rw [max_eq_left outside]
    · simp only [outside, decide_false]
      rw [ih (by omega) (by omega)]
      congr 1
      omega

namespace Machine

/-- The addresses that a step needs, in this order, with the program counter at `p` and the
index at `i`: those of the word, and those of the bytes from the index on. -/
def addressesNeeded (m : Machine) (p i : Nat) : List Nat :=
  p :: (p + 1) ::
    match Instruction.decode (m.memory.wordAt p) with
    | some ins => List.range' i ins.bytesNeeded
    | none => []

/-- What a fault says of the machine that it has stopped. -/
inductive Blames (m : Machine) : Fault → Prop where
  /-- The word at the program counter stands for no instruction. -/
  | word {p : Nat} (atPc : m.pc = (p : Rat)) (inside : p ≤ 0xffe)
    (unknown : Instruction.decode (m.memory.wordAt p) = none) :
    Blames m (.invalidInstruction p (m.memory.wordAt p))
  /-- A return stands at the program counter, and there is nothing to return to. -/
  | stack {p : Nat} (atPc : m.pc = (p : Rat)) (inside : p ≤ 0xffe)
    (found : Instruction.decode (m.memory.wordAt p) = some .ret) (empty : m.stack = []) :
    Blames m (.stackUnderflow p)
  /-- Of the addresses needed the first that is outside memory is this one, and a word. -/
  | address {p i a : Nat} (atPc : m.pc = (p : Rat)) (atIndex : m.i = (i : Rat))
    (first : (m.addressesNeeded p i).find? (0x1000 ≤ ·) = some a) (word : a ≤ 0xffff) :
    Blames m (.memoryAccess a)

/-- **Between the bounds that programs keep a fault tells why a step has failed.** -/
theorem InBounds.blames {m left : Machine} {now : Rat} {fault : Fault} (bounded : m.InBounds)
    (failed : m.step now = (left, .error fault)) : m.Blames fault := by
  obtain ⟨p, low, atPc⟩ := bounded.pc
  obtain ⟨i, word, atIndex⟩ := bounded.index
  cases fails_of_step atPc atIndex failed with
  | fetch beyond =>
    refine .address atPc atIndex ?_ (by omega)
    by_cases outside : 0x1000 ≤ p
    · rw [addressesNeeded, List.find?_cons_of_pos (by simpa using outside), max_eq_left outside]
    · have last : p = 0xfff := by omega
      rw [last, addressesNeeded, List.find?_cons_of_neg (by decide),
        List.find?_cons_of_pos (by decide)]
      rfl
  | decode inside unknown => exact .word atPc inside unknown
  | ret inside found empty => exact .stack atPc inside found empty
  | memory inside found needs beyond =>
    refine .address atPc atIndex ?_ (by omega)
    have first : ¬ 0x1000 ≤ p := by omega
    have second : ¬ 0x1000 ≤ p + 1 := by omega
    rw [addressesNeeded, List.find?_cons_of_neg (by simpa using first),
      List.find?_cons_of_neg (by simpa using second), found]
    exact find?_range'_outside needs beyond

end Machine

/-! ## Error lines -/

/-- The lines that went to the channel for errors. -/
def Log.Journal.errorLines (j : Journal) : Nat := j.countP (·.channel == .error)

theorem Log.Journal.errorLines_write (j : Journal) (l : Logger) (level : Level)
    (args : List Arg) :
    (j.write l level args).errorLines =
      j.errorLines + if l.enabled level ∧ level.channel = .error then 1 else 0 := by
  cases enabled : l.enabled level with
  | false => simp [write, Logger.entry?, enabled]
  | true => simp [write, Logger.entry?, enabled, errorLines, Array.countP_push]

namespace Host

variable {σ : Type}

/-- The error lines that a host has reason to write: that of its fault, if it records it and
is not silent. -/
def errorLinesDue (h : Host σ) : Nat :=
  if h.settings.mode = .record ∧ h.logger.enabled .error then h.fault.toList.length else 0

/-- A host has written the error lines that it has reason to write. -/
def ErrorsLogged (h : Host σ) : Prop := h.journal.errorLines = h.errorLinesDue

theorem ErrorsLogged.stepPhase {h : Host σ} (logged : h.ErrorsLogged) :
    h.stepPhase.1.ErrorsLogged := by
  rcases stepPhase_cases h with ⟨closed, phase⟩ | ⟨left, ins, due, ok, phase⟩ |
    ⟨left, fault, due, failed, phase⟩
  · rw [phase]
    exact logged
  · have traced : h.stepPhase.1.journal.errorLines = h.journal.errorLines := by
      rw [phase, succeeded]
      dsimp only
      split
      · rw [Log.Journal.errorLines_write, if_neg (by simp [Log.Level.channel]), Nat.add_zero]
      · rfl
    rw [ErrorsLogged, traced, phase]
    exact logged
  · have before : h.journal.errorLines = 0 := by
      have unfailed : h.fault = none := by
        simpa [stepDue, halted] using (Bool.and_eq_true_iff.mp due).1
      rw [logged, errorLinesDue, unfailed, Option.toList_none, List.length_nil, ite_self]
    rw [phase, ErrorsLogged, errorLinesDue]
    cases mode : h.settings.mode with
    | raise => simp [Host.failed, mode, before]
    | record =>
      simp [Host.failed, mode, Log.Journal.errorLines_write, before, logger, Log.Level.channel]

theorem ErrorsLogged.flushPhase {h : Host σ} (logged : h.ErrorsLogged) :
    h.flushPhase.ErrorsLogged := by
  unfold Host.flushPhase
  split <;> exact logged

theorem errorsLogged_create (settings : Settings) (machine : Machine) (clock : Rat) (source : σ) :
    (create settings machine clock source).ErrorsLogged := by
  rw [ErrorsLogged, errorLinesDue]
  split <;> rfl

/-- That a program is loaded is no error. -/
theorem ErrorsLogged.loadRom {h : Host σ} (logged : h.ErrorsLogged) (image : List Rat) :
    (h.loadRom image).1.ErrorsLogged := by
  rcases loaded : h.machine.loadRom image with ⟨machine, _ | fault⟩
  · simp only [Host.loadRom, loaded, ErrorsLogged, Log.Journal.errorLines_write]
    rw [if_neg (by simp [Log.Level.channel]), Nat.add_zero]
    exact logged
  · simp only [Host.loadRom, loaded]
    exact logged

section Rounds

variable [InputSource σ] {h : Host σ}

theorem ErrorsLogged.poll (logged : h.ErrorsLogged) : h.poll.1.ErrorsLogged := by
  have answered : h.answered.ErrorsLogged := logged
  rcases h.poll_fst_cases with left | left
  · rw [left]
    exact answered.stepPhase
  · rw [left]
    exact answered.stepPhase.flushPhase

/-- **A host logs its fault as the only error.** -/
theorem ErrorsLogged.moved (logged : h.ErrorsLogged) (moves : Nat → Move) (n : Nat) :
    (h.moved moves n).ErrorsLogged := by
  induction n with
  | zero => exact logged
  | succ n ih =>
    rw [Host.moved]
    cases moves n with
    | setClock time | advance ms => exact ih
    | poll => exact ih.poll

/-! ## Bounds -/

/-- Rounds keep the bounds, since the source and the display have no part in them. -/
theorem inBounds_poll (bounded : h.machine.InBounds) : h.poll.1.machine.InBounds := by
  have asked : h.answered.machine.InBounds := ⟨bounded.pc, bounded.index, bounded.stack⟩
  obtain ⟨shown, machine⟩ := h.poll_machine
  rw [machine]
  split
  · have stepped := asked.step h.answered.clock
    exact ⟨stepped.pc, stepped.index, stepped.stack⟩
  · exact ⟨asked.pc, asked.index, asked.stack⟩

theorem inBounds_moved (bounded : h.machine.InBounds) (moves : Nat → Move) (n : Nat) :
    (h.moved moves n).machine.InBounds := by
  induction n with
  | zero => exact bounded
  | succ n ih =>
    rw [moved]
    cases moves n with
    | setClock time | advance ms => exact ih
    | poll => exact inBounds_poll ih

/-! ## Rounds -/

/-- A fault tells of the machine before its round. -/
theorem blames_of_roundFault {fault : Fault} (bounded : h.machine.InBounds)
    (fails : h.roundFault? = some fault) : h.machine.Blames fault := by
  have asked : h.answered.machine.InBounds := ⟨bounded.pc, bounded.index, bounded.stack⟩
  obtain ⟨left, tried⟩ := Machine.step_of_fault (roundFault?_eq_some_iff.mp fails).2
  -- the latch is all that the answer of the source has changed
  cases asked.blames tried with
  | word atPc inside unknown => exact .word atPc inside unknown
  | stack atPc inside found empty => exact .stack atPc inside found empty
  | address atPc atIndex first word => exact .address atPc atIndex first word

/-- Before the round of a fault no round has had one. -/
theorem roundFault_first {moves : Nat → Move} {n k : Nat} {fault : Fault}
    (fails : (h.moved moves n).roundFault? = some fault) (earlier : k < n)
    (round : moves k = .poll) : (h.moved moves k).roundFault? = none := by
  rw [Option.eq_none_iff_forall_ne_some]
  intro other before
  have halted : (h.moved moves (k + 1)).fault = some other := by
    rw [moved, round, move, poll_fault (fault_of_roundFault before), before]
  have stays := (moved_of_halted halted earlier).1
  rw [fault_of_roundFault fails] at stays
  cases stays

end Rounds

/-! ## Hosts of new machines -/

section Fresh

variable [InputSource σ]

/-- **Only faults escape.**  Take a new machine with any program, and a host around it with
any source, whose clock is moved and which is asked for rounds.  From a round nothing
escapes but its fault, and that only if the host raises it.  It is the first fault of any
round, and it tells of the machine before the round: it names the place and the word there,
or the place of the return, or the first address needed that is outside memory.  A host
writes one error line at most, for its fault.  A latch that may be released may be released
at any later reading of the clock, so not even a clock that moves on within the round makes
the release fail. -/
theorem only_faults_escape (settings : Settings) (random : RandomStream) (image : List Rat)
    (start : Rat) (source : σ) (moves : Nat → Move) (n : Nat) :
    let h := ((create settings (Machine.create start random) start source).loadRom image).1
    let now := h.moved moves n
    now.poll.2 = (if settings.mode = .raise then now.roundFault?.map Escape.fault else none) ∧
      (∀ fault, now.roundFault? = some fault →
        now.machine.Blames fault ∧
          ∀ k < n, moves k = .poll → (h.moved moves k).roundFault? = none) ∧
      (now.journal.errorLines = now.errorLinesDue ∧ now.journal.errorLines ≤ 1) ∧
      ∀ early late, Binary64.InRange early → Binary64.InRange late → early ≤ late →
        now.machine.canRelease early = true →
          ∃ released, now.machine.release late = .ok released := by
  intro h now
  obtain ⟨journal, loaded⟩ :=
    loadRom_eq (create settings (Machine.create start random) start source) image
  have fresh : h = { (create settings (Machine.create start random) start source) with
      machine := ((Machine.create start random).loadRom image).1, journal } :=
    congrArg Prod.fst loaded
  have bounded : now.machine.InBounds := by
    apply inBounds_moved
    rw [fresh]
    obtain ⟨pc, index, stack⟩ := Machine.inBounds_create start random
    exact ⟨pc, index, stack⟩
  have logged : now.ErrorsLogged := by
    apply ErrorsLogged.moved
    apply ErrorsLogged.loadRom
    exact errorsLogged_create settings _ start source
  have mode : now.settings.mode = settings.mode := by
    rw [moved_settings, fresh]
    rfl
  refine ⟨?_, ?_, ?_, ?_⟩
  · rw [poll_snd, mode]
  · intro fault fails
    exact ⟨blames_of_roundFault bounded fails, fun _ earlier round =>
      roundFault_first fails earlier round⟩
  · refine ⟨logged, ?_⟩
    rw [logged, errorLinesDue]
    split
    · exact Option.length_toList_le
    · exact Nat.zero_le 1
  · intro early late inRange inRange' later elapsed
    have standard : now.machine.latch.holdTime = Latch.standardHold := by
      refine (latchAfter_moved h moves ?_ ?_ n).holdTime
      · rw [fresh]
        rfl
      · rw [fresh]
        rfl
    have still : now.machine.latch.canRelease late = true :=
      Latch.canRelease_mono standard inRange inRange' later elapsed
    refine ⟨{ now.machine with latch := { now.machine.latch with key := none } }, ?_⟩
    rw [Machine.release, Latch.release, if_pos still]
    rfl

/-- A program that stores three bytes of which the last has no place. -/
def storeAcrossTheEnd : List Rat := [0xaf, 0xfe, 0xf2, 0x55]

/-- A round every three milliseconds. -/
def everyThree (n : Nat) : Move := if n % 2 = 0 then .advance 3 else .poll

/-- A host that raises the fault of that program. -/
def raisingStore : Host Unit :=
  ((create { watched with mode := .raise } (Machine.create 0 (RandomStream.cycle [])) 0 ()).loadRom
    storeAcrossTheEnd).1

/-- The fault names the address of the third byte, and the round before has none. -/
theorem only_faults_escape_storeAcrossTheEnd :
    let now := raisingStore.moved everyThree
    (now 3).poll.2 = some (.fault (.memoryAccess 0x1000)) ∧
      (now 3).machine.Blames (.memoryAccess 0x1000) ∧ (now 1).roundFault? = none ∧
      (now 4).journal.errorLines ≤ 1 := by
  intro now
  have fails : (now 3).roundFault? = some (.memoryAccess 0x1000) := by decide +kernel
  obtain ⟨escape, faults, -⟩ := only_faults_escape { watched with mode := .raise }
    (RandomStream.cycle []) storeAcrossTheEnd 0 () everyThree 3
  obtain ⟨-, -, lines, -⟩ := only_faults_escape { watched with mode := .raise }
    (RandomStream.cycle []) storeAcrossTheEnd 0 () everyThree 4
  obtain ⟨blames, first⟩ := faults _ fails
  refine ⟨?_, blames, first 1 (by decide) rfl, lines.2⟩
  rw [if_pos rfl] at escape
  exact escape.trans (congrArg (Option.map Escape.fault) fails)

end Fresh

end Host

end Chip8
