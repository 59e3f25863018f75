/-
# Chip8.Log -- levels, loggers and log entries

A logger has a tag and a level.  It writes an entry for a message of its own level or a
more serious one, and `silent` is no message's level.  An entry goes to one of three
channels and starts with the tag in brackets.
-/
import Chip8.Number.Decimal

set_option autoImplicit false

namespace Chip8.Log

inductive Level where
  | silent | error | warn | info | debug | trace
deriving DecidableEq, Repr

namespace Level

/-- From silence to the most talkative level. -/
def all : List Level := [.silent, .error, .warn, .info, .debug, .trace]

def rank : Level → Nat
  | .silent => 0
  | .error => 1
  | .warn => 2
  | .info => 3
  | .debug => 4
  | .trace => 5

def name : Level → String
  | .silent => "silent"
  | .error => "error"
  | .warn => "warn"
  | .info => "info"
  | .debug => "debug"
  | .trace => "trace"

/-- The level with a name. -/
def ofName? (name : String) : Option Level := all.find? (·.name == name)

/-- The level that the environment asks for, in any case of letters, and `info` where it
asks for none or for one that does not exist. -/
def ofEnvironment (setting : Option String) : Level :=
  match setting with
  | some text => (ofName? (String.ofList (text.toList.map Char.toLower))).getD .info
  | none => .info

end Level

/-! ## Entries -/

inductive Channel where
  | error | warn | log
deriving DecidableEq, Repr

/-- Part of an entry. -/
inductive Arg where
  | text (value : String)
  | number (value : Rat)
deriving DecidableEq

structure Entry where
  channel : Channel
  args : List Arg
deriving DecidableEq

/-- Where messages of a level go. -/
def Level.channel : Level → Channel
  | .error => .error
  | .warn => .warn
  | _ => .log

def Arg.toText : Arg → String
  | .text value => value
  | .number value => Decimal.text value

/-- An entry as one line, its parts separated by spaces. -/
def Entry.line (e : Entry) : String := " ".intercalate (e.args.map Arg.toText)

/-! ## Loggers -/

structure Logger where
  tag : String
  level : Level
deriving DecidableEq

namespace Logger

/-- Whether messages of a level are written. -/
def enabled (l : Logger) (level : Level) : Bool :=
  level != .silent && decide (level.rank ≤ l.level.rank)

/-- The entry for a message, if it is written. -/
def entry? (l : Logger) (level : Level) (args : List Arg) : Option Entry :=
  if l.enabled level then
    some { channel := level.channel, args := .text ("[" ++ l.tag ++ "]") :: args }
  else none

end Logger

/-! ## Journals -/

/-- Entries in the order in which they were written. -/
abbrev Journal := Array Entry

/-- The journal after a message. -/
def Journal.write (j : Journal) (l : Logger) (level : Level) (args : List Arg) : Journal :=
  match l.entry? level args with
  | some e => j.push e
  | none => j

end Chip8.Log
