/-
# Chip8.Timer -- a delay timer that nobody ticks

The delay timer counts down by one every sixteen milliseconds and stops at zero.  It keeps
only the value it was set to and the time of that, and works out the rest when it is read:
`remainingDelay` takes the whole ticks since then off the value.  A clock that reads less
than the time of setting counts as no time passed.  Nothing is left to read where the time
passed is not known, because the clock had run off its range before the timer was set.
-/
import Chip8.Number.Binary64
import Chip8.Number.Wrap

set_option autoImplicit false

namespace Chip8

namespace Timer

/-- Milliseconds between two ticks. -/
def tickInterval : Rat := 16

/-- The time passed since `setAt`, never less than zero. -/
def elapsed? (setAt now : Rat) : Option Rat := (Binary64.sub? now setAt).map atLeastZero

/-- The value that is left after a number of ticks, never less than zero. -/
def countedDown (value : Rat) (ticks : Int) : Option Rat :=
  if value ≤ ticks then some 0 else Binary64.sub? value ticks

/-- What is left at time `now` of a delay set to `value` at time `setAt`, one tick every
`tick` milliseconds.  Ticks of no length are endless in number as soon as any time has
passed, and count upwards if `fromBelow`; before that they have no number. -/
def remainingDelay (value setAt now tick : Rat) (fromBelow : Bool) : Option Rat := do
  let passed ← elapsed? setAt now
  let ticks ← Binary64.div? passed tick fromBelow
  countedDown value ticks.floor

end Timer

structure Timer where
  value : UInt8
  setAt : Rat
deriving DecidableEq

namespace Timer

/-- A timer at zero, made at time `now`. -/
def create (now : Rat) : Timer := { value := 0, setAt := now }

/-- Starts the countdown of a value taken modulo 256. -/
def set (value now : Rat) : Timer := { value := wrapByte value, setAt := now }

/-- What is left at time `now`. -/
def read (t : Timer) (now : Rat) : Option UInt8 :=
  (remainingDelay (byteValue t.value) t.setAt now tickInterval false).map wrapByte

end Timer

end Chip8
