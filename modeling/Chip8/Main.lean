/-
# Chip8.Main -- the command line

`chip8 listing` prints the listing of a program image, and `chip8 run` runs one and stores a
picture of its screen.  Everything but reading and writing files is decided elsewhere.
-/
import Chip8.Command.Headless
import Chip8.Command.Listing

set_option autoImplicit false

namespace Chip8.Main

open Command

def usage : String := "Usage: chip8 listing|run [--option=value ...]"

/-- The variables that a command may look at. -/
def variableNames : List String :=
  ["CHIP8_ROM", "CHIP8_CPUERR", "CHIP8_MS", "CHIP8_SCALE", "CHIP8_TRACE", "CHIP8_LOG"]

def readEnvironment : IO Environment := do
  let values ← variableNames.mapM fun name => do return (name, ← IO.getEnv name)
  return fun name => (values.lookup name).join

/-- The cause of an error at a path. -/
def fileError (path : String) (whileReading : Bool) : IO.Error → FileError
  | .noFileOrDirectory .. => .notFound path
  | .inappropriateType .. => if whileReading then .readDirectory else .writeDirectory path
  | error => .other (toString error)

def readFile (path : String) : IO (Except FileError (List UInt8)) := do
  try
    return .ok (← IO.FS.readBinFile path).toList
  catch error => return .error (fileError path true error)

/-- Stores a picture; the answer is what went wrong. -/
def writePicture (path : String) (image : Png.Image) : IO (Option FileError) := do
  try
    IO.FS.writeBinFile path ⟨Png.encode image⟩
    return none
  catch error => return some (fileError path false error)

def printLine (line : Line) : IO Unit :=
  match line.stream with
  | .out => IO.println line.text
  | .err => IO.eprintln line.text

def conclude (outcome : Outcome) : IO UInt32 := do
  outcome.lines.forM printLine
  return UInt32.ofNat outcome.code

def runListing (arguments : List String) (environment : Environment) : IO UInt32 := do
  let contents ←
    match Listing.romPath? (Arguments.ofList arguments) environment with
    | some path => readFile path
    | none => pure (.ok [])
  conclude <| Listing.run arguments environment
    { read := fun _ => contents, writeError? := fun _ => none }

def runHeadless (arguments : List String) (environment : Environment) : IO UInt32 := do
  match Headless.prepare arguments environment with
  | .error outcome => conclude outcome
  | .ok plan =>
    let contents ← readFile plan.romPath
    let seed ← IO.monoNanosNow
    let ending := plan.simulate (RandomStream.seeded seed) contents Studio.standard
    let failure? ←
      match ending with
      | .picture _ path image _ _ => writePicture path image
      | .stopped _ => pure none
    conclude (ending.finish fun _ => failure?)

end Chip8.Main

def main (arguments : List String) : IO UInt32 := do
  let environment ← Chip8.Main.readEnvironment
  match arguments with
  | "listing" :: rest => Chip8.Main.runListing rest environment
  | "run" :: rest => Chip8.Main.runHeadless rest environment
  | _ =>
    IO.eprintln Chip8.Main.usage
    return 2
