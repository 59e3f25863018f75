/-
# Chip8.Machine.Basic -- the state of the machine

A machine is its sixteen registers, the index register, the program counter and the return
stack, together with the devices an instruction can reach: memory, screen, delay timer, key
latch and the stream of random bytes.  It also remembers when it last tried an instruction;
`canStep` opens once more than two milliseconds have passed since then.

The program counter, the index and the return addresses are numbers, because whoever holds
the machine may set them to any; what instructions write there are whole numbers.  All
time-dependent operations take the clock reading as an argument, so one clock serves the
whole machine.
-/
import Chip8.Keypad.Latch
import Chip8.Memory
import Chip8.Random
import Chip8.Screen.Basic
import Chip8.Timer
import Chip8.Instruction.Basic

set_option autoImplicit false

namespace Chip8

abbrev Registers := Vector UInt8 16

/-- The registers with bytes laid over them, from register `start` on. -/
def Registers.overwrite (v : Registers) (start : Nat) (bytes : List UInt8) : Registers :=
  Vector.ofFn fun r : Fin 16 =>
    if start ≤ r.val then bytes.getD (r.val - start) (v.get r) else v.get r

structure Machine where
  v : Registers
  i : Rat
  pc : Rat
  /-- Return addresses, the latest first. -/
  stack : List Rat
  memory : Memory
  screen : Screen
  timer : Timer
  latch : Latch
  random : RandomStream
  lastStepAt : Rat

namespace Machine

/-- An instruction may be tried once more than this many milliseconds have passed. -/
def stepInterval : Rat := 2

/-- A machine made at time `now`: glyphs in memory, everything else zero, blank and empty. -/
def create (now : Rat) (random : RandomStream) : Machine :=
  { v := Vector.replicate 16 0
    i := 0
    pc := programStart
    stack := []
    memory := Memory.fresh
    screen := Screen.create now
    timer := Timer.create now
    latch := Latch.create now Latch.standardHold
    random
    lastStepAt := now }

/-- Writes a program image into memory, up to the end of memory. -/
def loadRom (m : Machine) (image : List Rat) : Machine × Option Fault :=
  let (memory, fault) := m.memory.loadProgram image
  ({ m with memory }, fault)

def canStep (m : Machine) (now : Rat) : Bool :=
  (Binary64.sub? now m.lastStepAt).any (stepInterval < ·)

def canFlush (m : Machine) (now : Rat) : Bool := m.screen.canFlush now

def press (m : Machine) (key now : Rat) : Machine := { m with latch := m.latch.press key now }

def canRelease (m : Machine) (now : Rat) : Bool := m.latch.canRelease now

def release (m : Machine) (now : Rat) : Except Latch.Held Machine :=
  (m.latch.release now).map fun latch => { m with latch }

def setTimer (m : Machine) (value now : Rat) : Machine := { m with timer := Timer.set value now }

/-- The machine after its screen has been shown. -/
def flushed (m : Machine) (now : Rat) : Machine := { m with screen := m.screen.flushed now }

/-- The byte in a register. -/
def reg (m : Machine) (x : Register) : UInt8 := m.v.get x

def setV (m : Machine) (x : Register) (b : UInt8) : Machine := { m with v := m.v.set x b }

def setFlag (m : Machine) (on : Bool) : Machine := m.setV flagRegister (if on then 1 else 0)

def setGrid (m : Machine) (g : Grid) : Machine := { m with screen := { m.screen with cells := g } }

end Machine

end Chip8
