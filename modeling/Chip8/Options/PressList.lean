/-
# Chip8.Options.PressList -- a list of presses as text

Presses are written `KEY@MS`, separated by commas: a key name, an at sign, and the time in
milliseconds from which the press may be seen.  Items that are blank count for nothing.
An item names its key first: a key that does not exist is reported before a bad time, and
the first bad item before all others.  The presses come out in the order of their times.
-/
import Chip8.Keypad.Layout
import Chip8.Keypad.Press

set_option autoImplicit false

namespace Chip8

inductive PressError where
  | unknownKey (key : String)
  | badTime (item : String)
deriving DecidableEq, Repr

namespace PressError

def message : PressError → String
  | .unknownKey key => "Unknown key in --press: \"" ++ key ++ "\""
  | .badTime item => "Bad press time in --press: \"" ++ item ++ "\""

end PressError

namespace PressList

/-- The items of a list that are not blank. -/
def items (text : List Char) : List (List Char) :=
  (text.splitOn ',').filter fun item => !(trim item).isEmpty

/-- The key and the time written in an item, as far as they are there. -/
def parts (item : List Char) : List Char × Option (List Char) :=
  match item.splitOn '@' with
  | key :: time :: _ => (key, some time)
  | key :: [] => (key, none)
  | [] => ([], none)

/-- The press that an item stands for. -/
def press (item : List Char) : Except PressError Press :=
  let (name, time) := parts item
  match Keypad.keyOfText name with
  | none => .error (.unknownKey (String.ofList name))
  | some key =>
    match time.bind Numeral.read with
    | some atMs =>
      if atMs < 0 then .error (.badTime (String.ofList item))
      else .ok { key := (key.val : Rat), atMs }
    | none => .error (.badTime (String.ofList item))

/-- The presses of a list in the order of their times. -/
def read (text : String) : Except PressError (List Press) :=
  ((items text.toList).mapM press).map Press.sorted

/-- The presses of a list that may be missing. -/
def read? (text : Option String) : Except PressError (List Press) :=
  match text with
  | some list => read list
  | none => .ok []

end PressList

end Chip8
