/-
# Chip8.Proofs.Halting -- a halt is final

Whoever holds a host moves it (`Move`) or has it run, in simulated time or in time that
passes by itself; `Call` is any of these, and `called` is the host after the first calls of
a sequence.

A fault halts the host in the round in which it arises, whether it is recorded or raised.
No loop goes on from a halted host (`runUntil_of_halted`, `pacedUntil_of_halted`), and a
round of it tries no instruction, so a call leaves it `Frozen`: the program, the count of
instructions, the fault and the journal stay as they are.  What is left to move is the
latch, the clock, the source, and the frames.

`halt_is_final` says so of every sequence of calls after the round of the fault.
-/
import Chip8.Proofs.Rounds

set_option autoImplicit false

namespace Chip8

namespace Machine

/-- A machine that differs at most in its latch and in when its screen was last shown. -/
def SameProgram (m left : Machine) : Prop :=
  ∃ latch shown, left = ({ m with latch } : Machine).flushed shown

theorem sameProgram_refl (m : Machine) : m.SameProgram m := ⟨m.latch, m.screen.lastFlushAt, rfl⟩

theorem SameProgram.trans {a b c : Machine} (ab : a.SameProgram b) (bc : b.SameProgram c) :
    a.SameProgram c := by
  obtain ⟨_, _, rfl⟩ := ab
  obtain ⟨latch, shown, rfl⟩ := bc
  exact ⟨latch, shown, rfl⟩

end Machine

namespace Host

variable {σ : Type}

/-! ## Calls -/

/-- What whoever holds a host may ask of it: a move, or a run. -/
inductive Call where
  | move (move : Move)
  | runFor (ms : Rat)
  | runPaced (ms every : Rat)

section Calls

variable [InputSource σ] (h : Host σ)

/-- The host after a call, whether or not an error has escaped from it. -/
def call : Call → Host σ
  | .move move => h.move move
  | .runFor ms => (h.runFor ms).1
  | .runPaced ms every => (h.runPaced ms every).host

/-- The host after the first of a sequence of calls. -/
def called (calls : Nat → Call) : Nat → Host σ
  | 0 => h
  | n + 1 => (called calls n).call (calls n)

end Calls

/-! ## What stays as it is -/

/-- A later host in which nothing has moved but its clock, its source, its latch and the
frames it has shown. -/
structure Frozen (h later : Host σ) : Prop where
  settings : later.settings = h.settings
  fault : later.fault = h.fault
  executed : later.executed = h.executed
  journal : later.journal = h.journal
  program : h.machine.SameProgram later.machine

namespace Frozen

theorem refl (h : Host σ) : h.Frozen h := ⟨rfl, rfl, rfl, rfl, Machine.sameProgram_refl _⟩

theorem trans {a b c : Host σ} (ab : a.Frozen b) (bc : b.Frozen c) : a.Frozen c where
  settings := bc.settings.trans ab.settings
  fault := bc.fault.trans ab.fault
  executed := bc.executed.trans ab.executed
  journal := bc.journal.trans ab.journal
  program := ab.program.trans bc.program

theorem halted {h later : Host σ} (frozen : h.Frozen later) (halted : h.halted = true) :
    later.halted = true := by
  rw [Host.halted, frozen.fault]
  exact halted

end Frozen

/-! ## Halted hosts -/

section Halted

variable [InputSource σ] {h : Host σ}

omit [InputSource σ] in
/-- No run goes on from a halted host. -/
theorem running_of_halted (halted : h.halted = true) (stop : Rat) : h.running stop = false := by
  simp [running, halted]

theorem runUntil_of_halted (halted : h.halted = true) (stop : Rat) (limit : Nat) :
    runUntil stop limit h = (h, none) := by
  cases limit with
  | zero => rfl
  | succ limit => simp [runUntil, running_of_halted halted]

theorem pacedUntil_of_halted (halted : h.halted = true) (stop every : Rat)
    (limit rounds pauses : Nat) :
    pacedUntil stop every limit rounds pauses h = { host := h, rounds, pauses, escape := none } := by
  cases limit with
  | zero => rfl
  | succ limit => simp [pacedUntil, running_of_halted halted]

/-- The round of a halted host asks the source and may show a frame. -/
theorem frozen_poll (halted : h.halted = true) : h.Frozen h.poll.1 := by
  rw [poll_of_halted halted]
  unfold flushPhase
  split
  · exact ⟨rfl, rfl, rfl, rfl, h.answered.machine.latch, h.answered.clock, rfl⟩
  · exact ⟨rfl, rfl, rfl, rfl, h.answered.machine.latch, h.machine.screen.lastFlushAt, rfl⟩

theorem frozen_move (halted : h.halted = true) (move : Move) : h.Frozen (h.move move) := by
  cases move with
  | setClock time | advance ms => exact ⟨rfl, rfl, rfl, rfl, Machine.sameProgram_refl _⟩
  | poll => exact frozen_poll halted

theorem frozen_call (halted : h.halted = true) (call : Call) : h.Frozen (h.call call) := by
  cases call with
  | move move => exact frozen_move halted move
  | runFor ms =>
    rw [Host.call, runFor, runUntil_of_halted halted]
    exact Frozen.refl h
  | runPaced ms every =>
    rw [Host.call, runPaced, pacedUntil_of_halted halted]
    exact Frozen.refl h

theorem frozen_called (halted : h.halted = true) (calls : Nat → Call) (n : Nat) :
    h.Frozen (h.called calls n) := by
  induction n with
  | zero => exact Frozen.refl h
  | succ n ih => exact ih.trans (frozen_call (ih.halted halted) (calls n))

end Halted

/-! ## The round of the fault -/

section Final

variable [InputSource σ] {h : Host σ} {fault : Fault}

/-- Only a host that is not halted tries an instruction, and so only there one fails. -/
theorem fault_of_roundFault (fails : h.roundFault? = some fault) : h.fault = none := by
  have due := (roundFault?_eq_some_iff.mp fails).1
  simp only [stepDue, Bool.and_eq_true, Bool.not_eq_true', halted, answered,
    Option.isSome_eq_false_iff, Option.isNone_iff_eq_none] at due
  exact due.1

/-- **A halt is final.**  The round in which an instruction fails halts the host with that
fault, in either mode.  Whatever is called after it, the fault, the count of instructions,
the journal and the program stay as that round has left them, and no error escapes from a
later round.  No loop makes another round: the one that has asked for the round of the
fault ends with it, and a later run ends before it has moved the clock. -/
theorem halt_is_final (fails : h.roundFault? = some fault) (calls : Nat → Call) (n : Nat) :
    let later := h.poll.1.called calls n
    later.fault = some fault ∧ h.poll.1.Frozen later ∧ later.poll.2 = none ∧
      (∀ ms, later.runFor ms = (later, none)) ∧
      (∀ ms every,
        later.runPaced ms every = { host := later, rounds := 0, pauses := 0, escape := none }) ∧
      (∀ stop limit, runUntil stop limit later = (later, none)) ∧
      ∀ stop every limit rounds pauses,
        pacedUntil stop every limit rounds pauses later =
          { host := later, rounds, pauses, escape := none } := by
  intro later
  have first : h.poll.1.fault = some fault := (poll_fault (fault_of_roundFault fails)).trans fails
  have halted : h.poll.1.halted = true := by
    rw [Host.halted, first]
    rfl
  have frozen : h.poll.1.Frozen later := frozen_called halted calls n
  have still : later.halted = true := frozen.halted halted
  refine ⟨frozen.fault.trans first, frozen, ?_, ?_, ?_, runUntil_of_halted still,
    pacedUntil_of_halted still⟩
  · rw [poll_of_halted still]
  · intro ms
    apply runUntil_of_halted still
  · intro ms every
    apply pacedUntil_of_halted still

/-- A host at the word `0000`, which stands for no instruction. -/
def atZero : Host Unit :=
  create
    { mode := .record
      traceInterval := 0
      hasDisplay := true
      hostLevel := .silent
      machineLevel := .silent }
    (Machine.create 0 (RandomStream.cycle [])) 0 ()

/-- That host eleven milliseconds later, if it raises its faults. -/
def raisingAtZero : Host Unit :=
  { atZero with clock := 11, settings := { atZero.settings with mode := .raise } }

/-- Time passes, a round, a run in simulated time, and runs in time that passes by itself. -/
def goOn : Nat → Call
  | 0 => .move (.advance 20)
  | 1 => .move .poll
  | 2 => .runFor 50
  | _ => .runPaced 50 1

/-- The fault escapes.  Among the calls that follow only the round shows a frame, and no run
lets time pass. -/
theorem halt_is_final_goOn :
    let halted := raisingAtZero.poll.1
    let later := halted.called goOn 4
    raisingAtZero.poll.2 = some (.fault (.invalidInstruction 0x200 0)) ∧
      later.fault = some (.invalidInstruction 0x200 0) ∧ halted.Frozen later ∧
      later.executed = 0 ∧ halted.flushed = 0 ∧ later.flushed = 1 ∧ later.clock = 31 := by
  intro halted later
  have fails : raisingAtZero.roundFault? = some (.invalidInstruction 0x200 0) := by
    decide +kernel
  obtain ⟨fault, frozen, -⟩ := halt_is_final fails goOn 4
  have executed : halted.executed = 0 := by decide +kernel
  exact ⟨by decide +kernel, fault, frozen, frozen.executed.trans executed, by decide +kernel,
    by decide +kernel, by decide +kernel⟩

end Final

end Host

end Chip8
