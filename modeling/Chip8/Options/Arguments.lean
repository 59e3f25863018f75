/-
# Chip8.Options.Arguments -- command-line arguments as a map

An argument of the form `--key=value` gives a value to a key: the key is what stands
between the dashes and the first equals sign, and is not empty, and the value holds no end
of a line.  Any other argument that starts with two dashes is a bare flag named by all that
follows the dashes.  Arguments without dashes say nothing.

The arguments together are a map in which the last word on a key counts
(`Arguments.get?_insert`).  One key is reserved and never stored.
-/
import Chip8.Text.Blank

set_option autoImplicit false

namespace Chip8

inductive ArgumentValue where
  | text (value : String)
  /-- The key stood alone. -/
  | bare
deriving DecidableEq, Repr

/-- Keys with their values, each key once. -/
structure Arguments where
  entries : List (String × ArgumentValue)
deriving DecidableEq, Repr

namespace Arguments

def empty : Arguments := ⟨[]⟩

def get? (a : Arguments) (key : String) : Option ArgumentValue := a.entries.lookup key

/-- The key that no argument can set. -/
def reservedKey : String := "__proto__"

/-- Gives a key its value, in place of an earlier one. -/
def insert (a : Arguments) (key : String) (value : ArgumentValue) : Arguments :=
  if key = reservedKey then a
  else ⟨(key, value) :: a.entries.filter (·.1 != key)⟩

/-! ## One argument -/

/-- The key and the value that an argument gives, if it gives one. -/
def entry? (argument : List Char) : Option (String × ArgumentValue) :=
  match argument with
  | '-' :: '-' :: rest =>
    let key := rest.takeWhile (· != '=')
    match rest.dropWhile (· != '=') with
    | '=' :: value =>
      if key.isEmpty || value.any isLineEnd then some (String.ofList rest, .bare)
      else some (String.ofList key, .text (String.ofList value))
    | _ => some (String.ofList rest, .bare)
  | _ => none

/-! ## All arguments -/

/-- The map with one more argument. -/
def add (a : Arguments) (argument : String) : Arguments :=
  match entry? argument.toList with
  | some (key, value) => a.insert key value
  | none => a

def ofList (arguments : List String) : Arguments := arguments.foldl add empty

/-- The value of a key, where it is a text that is not empty. -/
def text? (a : Arguments) (key : String) : Option String :=
  match a.get? key with
  | some (.text value) => if value.isEmpty then none else some value
  | _ => none

private theorem lookup_filter_ne {key other : String} (ne : key ≠ other)
    (entries : List (String × ArgumentValue)) :
    (entries.filter (·.1 != key)).lookup other = entries.lookup other := by
  induction entries with
  | nil => rfl
  | cons e rest ih =>
    obtain ⟨k, v⟩ := e
    by_cases h : k = key
    · have miss : (other == key) = false := by simp [Ne.symm ne]
      simp [List.lookup_cons, h, ih, miss]
    · simp [List.lookup_cons, h, ih]

/-- The last word on a key counts, and other keys keep theirs. -/
theorem get?_insert (a : Arguments) (key other : String) (value : ArgumentValue) :
    (a.insert key value).get? other =
      if key = reservedKey then a.get? other
      else if other = key then some value else a.get? other := by
  unfold insert get?
  by_cases r : key = reservedKey
  · simp [r]
  · by_cases h : other = key
    · simp [r, h]
    · have miss : (other == key) = false := by simp [h]
      simp [r, h, miss, List.lookup_cons, lookup_filter_ne (Ne.symm h)]

end Arguments

end Chip8
