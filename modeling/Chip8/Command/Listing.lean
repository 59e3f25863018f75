/-
# Chip8.Command.Listing -- the listing of an image

The command prints the listing of a program image: for each word its address, the word and
its assembly text.  The image is named by an argument or, where no value is given, by a
variable of the environment.
-/
import Chip8.Command.Outcome
import Chip8.Instruction.Assembly
import Chip8.Options.Run
import Chip8.Rom

set_option autoImplicit false

namespace Chip8.Command.Listing

def usage : String := "Usage: --rom=path/to/game.ch8"

/-- The path of the image; a value that is empty hides the variable. -/
def romPath? (arguments : Arguments) (environment : Environment) : Option String :=
  let path? :=
    match arguments.get? "rom" with
    | some (.text path) => some path
    | _ => environment "CHIP8_ROM"
  path?.filter (!·.isEmpty)

/-- One line of the listing. -/
def lineText (e : ListingEntry) : String :=
  Hexadecimal.padded 3 e.address ++ ": " ++ Hexadecimal.padded 4 (e.word : Rat) ++ "  " ++ e.text

/-- The lines for an image of bytes. -/
def lines (image : List UInt8) : List Line :=
  (listing (image.map byteValue) programStart).map fun e => { stream := .out, text := lineText e }

def failure (message : String) : Outcome :=
  .plain 1 [{ stream := .err, text := "[disasm] " ++ message }]

/-- The outcome for the contents of an image file. -/
def ofImage (contents : Except FileError (List UInt8)) : Outcome :=
  match contents with
  | .error error => failure error.message
  | .ok bytes =>
    match Rom.validate bytes with
    | .error error => failure error.message
    | .ok image => .plain 0 (lines image)

def run (arguments : List String) (environment : Environment) (files : Files) : Outcome :=
  match romPath? (Arguments.ofList arguments) environment with
  | none => .plain 2 [{ stream := .err, text := usage }]
  | some path => ofImage (files.read path)

end Chip8.Command.Listing
