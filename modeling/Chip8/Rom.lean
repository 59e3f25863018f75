/-
# Chip8.Rom -- program images

A program image is raw bytes without a header.  It has to fit between the start of programs
and the end of memory, and to hold at least one byte.
-/
import Chip8.Memory

set_option autoImplicit false

namespace Chip8

namespace Rom

/-- The most bytes that an image may have. -/
def maxSize : Nat := Memory.size - programStart

inductive Error where
  | empty
  | tooLarge (size : Nat)
deriving DecidableEq, Repr

def Error.message : Error → String
  | .empty => "ROM is empty"
  | .tooLarge size =>
    "ROM too large: " ++ toString size ++ " bytes (max " ++ toString maxSize ++ ")"

/-- The image itself, if its size is right. -/
def validate {α : Type} (image : List α) : Except Error (List α) :=
  if image.isEmpty then .error .empty
  else if maxSize < image.length then .error (.tooLarge image.length)
  else .ok image

end Rom

end Chip8
