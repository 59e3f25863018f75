/-
# Chip8.Host.Basic -- a machine and what surrounds it

A host owns a machine, the clock, an input source and a display.  It counts the
instructions that succeeded and the frames it has shown, keeps the fault that halted it,
and writes a journal.  Its settings say what it does with a fault, how often it traces, and
whether it has a display at all.

A fault halts the host in either mode: in the mode `record` it is written to the journal
and kept, in the mode `raise` it escapes to whoever asked for the round, and is kept too.
-/
import Chip8.Host.Input
import Chip8.Log
import Chip8.Machine.Step

set_option autoImplicit false

namespace Chip8

/-- What happens to a fault: it escapes, or it is only recorded. -/
inductive FaultMode where
  | raise
  | record
deriving DecidableEq, Repr

namespace FaultMode

def name : FaultMode → String
  | .raise => "throw"
  | .record => "record"

def ofName? (name : String) : Option FaultMode :=
  [FaultMode.raise, .record].find? (·.name == name)

end FaultMode

namespace Host

structure Settings where
  mode : FaultMode
  /-- A line is traced after every so many instructions, if this is positive. -/
  traceInterval : Int
  hasDisplay : Bool
  /-- The level of the logger of the host itself. -/
  hostLevel : Log.Level
  /-- The level of the logger that tells of programs loaded. -/
  machineLevel : Log.Level
deriving DecidableEq

/-- The trace interval for a number: at least zero, its whole part modulo `2 ^ 32` read as
signed. -/
def traceIntervalOf (n : Rat) : Int := wrapSigned32 (atLeastZero n)

/-- What may end a round early. -/
inductive Escape where
  | fault (fault : Fault)
  | held (held : Latch.Held)
deriving DecidableEq

end Host

structure Host (σ : Type) where
  settings : Host.Settings
  machine : Machine
  clock : Rat
  input : σ
  executed : Nat
  flushed : Nat
  /-- The fault that halted the host. -/
  fault : Option Fault
  display : Display
  journal : Log.Journal

namespace Host

variable {σ : Type}

/-- A host around a machine, with nothing done yet. -/
def create (settings : Settings) (machine : Machine) (clock : Rat) (input : σ) : Host σ :=
  { settings, machine, clock, input
    executed := 0
    flushed := 0
    fault := none
    display := Display.idle
    journal := #[] }

def halted (h : Host σ) : Bool := h.fault.isSome

/-- The logger of the host. -/
def logger (h : Host σ) : Log.Logger := { tag := "sched", level := h.settings.hostLevel }

/-- The logger that tells of programs loaded. -/
def machineLogger (h : Host σ) : Log.Logger := { tag := "emu", level := h.settings.machineLevel }

/-- Loads a program image; a load that is complete is told. -/
def loadRom (h : Host σ) (image : List Rat) : Host σ × Option Fault :=
  match h.machine.loadRom image with
  | (machine, some fault) => ({ h with machine }, some fault)
  | (machine, none) =>
    let text := "loaded " ++ toString image.length ++ " bytes at 0x200"
    ({ h with machine, journal := h.journal.write h.machineLogger .debug [.text text] }, none)

end Host

end Chip8
