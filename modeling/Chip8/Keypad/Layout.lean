/-
# Chip8.Keypad.Layout -- names of keys

The keypad has sixteen keys, one for each base-16 digit.  A key is named by its digit or by
the key of a keyboard that stands in for it: the left four columns of the digit row and of
the three rows below it are laid over the four rows of the keypad.  `keyOfName` reads the
keyboard names, and `keyOfText` takes a name of either kind with blanks around it.
-/
import Chip8.Number.Numeral
import Chip8.Text.Blank

set_option autoImplicit false

namespace Chip8.Keypad

/-- Keyboard names of the keys, from key zero on. -/
def keyboard : Vector String 16 :=
  #v["KeyX", "Digit1", "Digit2", "Digit3", "KeyQ", "KeyW", "KeyE", "KeyA",
    "KeyS", "KeyD", "KeyZ", "KeyC", "Digit4", "KeyR", "KeyF", "KeyV"]

/-- The keyboard name of a key. -/
def nameOfKey (key : Fin 16) : String := keyboard.get key

/-- The key with a keyboard name. -/
def keyOfName (name : String) : Option (Fin 16) :=
  (List.finRange 16).find? fun key => nameOfKey key == name

/-- The key named by a single base-16 digit. -/
def keyOfDigit (c : Char) : Option (Fin 16) :=
  match Numeral.digitValue? c with
  | some d => if h : d < 16 then some ⟨d, h⟩ else none
  | none => none

/-- The key that a text names, blanks at its ends aside. -/
def keyOfText (text : List Char) : Option (Fin 16) :=
  let name := trim text
  match name with
  | [c] => keyOfDigit c
  | _ => keyOfName (String.ofList name)

end Chip8.Keypad
