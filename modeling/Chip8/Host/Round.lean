/-
# Chip8.Host.Round -- one round of the host

A round has three phases, each behind its own gate.  In the input phase the source is
asked: a key is pressed on the machine, and without a key the latch is released once its
hold is over.  In the step phase one instruction is tried, if the machine is ready and no
fault has halted the host.  In the flush phase the screen is shown, if it is time.

`poll` runs the phases in this order.  An error that escapes ends the round where it
arises, so a raised fault leaves no flush behind it.
-/
import Chip8.Host.Basic
import Chip8.Instruction.Assembly

set_option autoImplicit false

namespace Chip8.Host

variable {σ : Type} [InputSource σ]

/-! ## Input -/

/-- Asks the source and passes its answer on to the latch. -/
def takeInput (h : Host σ) : Host σ × Option Latch.Held :=
  let answer := InputSource.ask h.input h.clock
  let h := { h with input := answer.source, clock := answer.clock }
  match answer.key with
  | some key => ({ h with machine := h.machine.press key h.clock }, none)
  | none =>
    if h.machine.canRelease h.clock then
      match h.machine.release h.clock with
      | .ok machine => ({ h with machine }, none)
      | .error held => (h, some held)
    else (h, none)

/-! ## Instructions -/

/-- The line traced for an instruction that stood at `pc`, after it has been executed. -/
def traceLine (pc : Rat) (ins : Instruction) (m : Machine) : String :=
  Hexadecimal.padded 3 pc ++ " " ++ padRight 18 ins.text ++ " I=" ++ Hexadecimal.padded 4 m.i ++
    " SP=" ++ toString m.stack.length ++ " V=" ++
    " ".intercalate (m.v.toList.map Hexadecimal.ofByte)

/-- Whether the instruction with this number is traced. -/
def isTraced (interval : Int) (number : Nat) : Bool :=
  decide (0 < interval) && decide ((number : Int) % interval = 0)

/-- The host after an instruction that stood at `pc` has succeeded. -/
def succeeded (h : Host σ) (pc : Rat) (ins : Instruction) : Host σ :=
  let executed := h.executed + 1
  let journal :=
    if isTraced h.settings.traceInterval executed then
      h.journal.write h.logger .trace [.text (traceLine pc ins h.machine)]
    else h.journal
  { h with executed, journal }

/-- The host halted by the fault of an instruction that stood at `pc`. -/
def failed (h : Host σ) (pc : Rat) (fault : Fault) : Host σ × Option Fault :=
  let h := { h with fault := some fault }
  match h.settings.mode with
  | .raise => (h, some fault)
  | .record =>
    let place := "halted at 0x" ++ Hexadecimal.padded 3 pc ++ " after " ++
      toString h.executed ++ " instructions:"
    let journal := h.journal.write h.logger .error [.text place, .text fault.message]
    ({ h with journal }, none)

/-- Tries one instruction; the answer is the fault that escapes. -/
def attempt (h : Host σ) : Host σ × Option Fault :=
  let pc := h.machine.pc
  match h.machine.step h.clock with
  | (machine, .ok ins) => ({ h with machine }.succeeded pc ins, none)
  | (machine, .error fault) => { h with machine }.failed pc fault

/-- Whether an instruction is due. -/
def stepDue (h : Host σ) : Bool := !h.halted && h.machine.canStep h.clock

/-! ## Frames -/

/-- Shows the screen and counts the frame. -/
def flush (h : Host σ) : Host σ :=
  { h with
    display :=
      if h.settings.hasDisplay then h.display.present h.machine.screen.cells else h.display
    machine := h.machine.flushed h.clock
    flushed := h.flushed + 1 }

/-- Whether a frame is due. -/
def flushDue (h : Host σ) : Bool := h.machine.canFlush h.clock

/-! ## Rounds -/

def stepPhase (h : Host σ) : Host σ × Option Fault :=
  if h.stepDue then h.attempt else (h, none)

def flushPhase (h : Host σ) : Host σ := if h.flushDue then h.flush else h

/-- One round; the answer is the error that escapes, if one does. -/
def poll (h : Host σ) : Host σ × Option Escape :=
  match h.takeInput with
  | (h, some held) => (h, some (.held held))
  | (h, none) =>
    match h.stepPhase with
    | (h, some fault) => (h, some (.fault fault))
    | (h, none) => (h.flushPhase, none)

/-- A number of rounds, up to the first from which an error escapes. -/
def polls (h : Host σ) : Nat → Host σ × Option Escape
  | 0 => (h, none)
  | n + 1 =>
    match h.poll with
    | (h, some escape) => (h, some escape)
    | (h, none) => h.polls n

end Chip8.Host
