/-
# Chip8.Keypad.Latch -- the key that is held

One key at a time is latched.  A press replaces whatever is latched and starts the hold
anew; the latch may be released once the hold time has passed since the last press, so a
short tap is still there when the program looks.  Releasing it earlier is an error.
-/
import Chip8.Number.Binary64
import Chip8.Number.Decimal

set_option autoImplicit false

namespace Chip8

structure Latch where
  key : Option Rat
  pressedAt : Rat
  holdTime : Rat
deriving DecidableEq

namespace Latch

/-- Milliseconds for which a press is held. -/
def standardHold : Rat := 200

/-- An empty latch made at time `now`. -/
def create (now : Rat) (holdTime : Rat) : Latch := { key := none, pressedAt := now, holdTime }

def press (l : Latch) (key now : Rat) : Latch := { l with key := some key, pressedAt := now }

def isPressed (l : Latch) (key : Rat) : Bool := l.key == some key

/-- Whether a key is latched and its hold is over. -/
def canRelease (l : Latch) (now : Rat) : Bool :=
  l.key.isSome && (Binary64.sub? now l.pressedAt).any (l.holdTime ≤ ·)

/-- Why a latch was not released. -/
inductive Held where
  | holdNotElapsed (holdTime : Rat)
deriving DecidableEq

def Held.message : Held → String
  | .holdNotElapsed holdTime =>
    "Key latch cleared before " ++ Decimal.text holdTime ++ "ms hold elapsed"

/-- Empties a latch whose hold is over. -/
def release (l : Latch) (now : Rat) : Except Held Latch :=
  if l.canRelease now then .ok { l with key := none } else .error (.holdNotElapsed l.holdTime)

end Latch

end Chip8
