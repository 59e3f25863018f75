/-
# Chip8.Options.Run -- the options of a run

An option comes from an argument, from a variable of the environment or from a default, in
this order.  An argument that is bare or empty counts as absent; a variable counts as
present even if it is empty.

Numbers are read as numerals and rounded down to whole ones; one below its least value is
raised to that, and a text that is no finite number gives the default.  So whatever the
texts are, only three things can be wrong: the fault mode, the key of a press, or its time.
-/
import Chip8.Host.Basic
import Chip8.Options.Arguments
import Chip8.Options.PressList

set_option autoImplicit false

namespace Chip8

/-- Variables with their values. -/
abbrev Environment := String → Option String

inductive OptionError where
  | badFaultMode (text : String)
  | press (error : PressError)
deriving DecidableEq, Repr

def OptionError.message : OptionError → String
  | .badFaultMode text => "Bad --onCpuError: " ++ text
  | .press error => error.message

structure RunOptions where
  romPath : Option String
  outPath : String
  /-- Milliseconds of simulated time. -/
  ms : Nat
  /-- Pixels to a cell. -/
  scale : Nat
  presses : List Press
  /-- Instructions from one traced line to the next; zero for none. -/
  traceEvery : Nat
  mode : FaultMode
  logLevel : Option Log.Level
deriving DecidableEq

namespace RunOptions

/-- The number that a text denotes, rounded down and at least `least`. -/
def number (text? : Option String) (fallback least : Nat) : Nat :=
  match text?.bind fun text => Numeral.read text.toList with
  | some q => (max (least : Int) q.floor).toNat
  | none => fallback

/-- The text of an option: its argument, or else its variable. -/
def textOf (arguments : Arguments) (environment : Environment) (key name : String) :
    Option String :=
  (arguments.text? key).or (environment name)

/-- The fault mode asked for; the mode `raise` if none is. -/
def faultMode (text? : Option String) : Except OptionError FaultMode :=
  match text? with
  | none => .ok .raise
  | some text =>
    match FaultMode.ofName? text with
    | some mode => .ok mode
    | none => .error (.badFaultMode text)

/-- The options that arguments and environment ask for. -/
def resolve (arguments : Arguments) (environment : Environment) :
    Except OptionError RunOptions := do
  let text := textOf arguments environment
  let mode ← faultMode (text "onCpuError" "CHIP8_CPUERR")
  let presses ← (PressList.read? (arguments.text? "press")).mapError .press
  return {
    romPath := text "rom" "CHIP8_ROM"
    outPath := (arguments.text? "out").getD "screen.png"
    ms := number (text "ms" "CHIP8_MS") 2000 1
    scale := number (text "scale" "CHIP8_SCALE") 10 1
    presses
    traceEvery := number (text "trace" "CHIP8_TRACE") 0 0
    mode
    logLevel := (arguments.text? "log").bind Log.Level.ofName? }

end RunOptions

end Chip8
