/-
# Chip8.Keypad.Press -- presses with their times

A press names a key and the time from which it may be seen.  `Press.sorted` puts presses in
the order of their times and leaves presses of one time in the order in which they were
listed.
-/
set_option autoImplicit false

namespace Chip8

structure Press where
  key : Rat
  atMs : Rat
deriving DecidableEq

/-- Presses in the order of their times; equal times keep their order. -/
def Press.sorted (presses : List Press) : List Press :=
  presses.mergeSort fun a b => decide (a.atMs ≤ b.atMs)

end Chip8
