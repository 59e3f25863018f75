/-
# Chip8.Command.Outcome -- what a command leaves behind

A command ends with an exit code, the lines it has written to the two standard streams, in
their order over both, and the pictures it has stored.  What it needs of files is a function
from a path to contents or an error, so a command itself is a plain function.
-/
import Chip8.Log
import Chip8.Screen.Png

set_option autoImplicit false

namespace Chip8.Command

inductive Stream where
  | out | err
deriving DecidableEq, Repr

structure Line where
  stream : Stream
  text : String
deriving DecidableEq, Repr

structure Outcome where
  code : Nat
  lines : List Line
  /-- Pictures with the paths they were stored at. -/
  pictures : List (String × Png.Image)

/-- An outcome without pictures. -/
def Outcome.plain (code : Nat) (lines : List Line) : Outcome := { code, lines, pictures := [] }

/-- Why a file was not read or written. -/
inductive FileError where
  | notFound (path : String)
  | notDirectory (path : String)
  | nameTooLong (path : String)
  | readDirectory
  | writeDirectory (path : String)
  | other (text : String)
deriving DecidableEq, Repr

def FileError.message : FileError → String
  | .notFound path => "ENOENT: no such file or directory, open '" ++ path ++ "'"
  | .notDirectory path => "ENOTDIR: not a directory, open '" ++ path ++ "'"
  | .nameTooLong path => "ENAMETOOLONG: name too long, open '" ++ path ++ "'"
  | .readDirectory => "EISDIR: illegal operation on a directory, read"
  | .writeDirectory path => "EISDIR: illegal operation on a directory, open '" ++ path ++ "'"
  | .other text => text

/-- Files as a command sees them. -/
structure Files where
  read : String → Except FileError (List UInt8)
  /-- Why a file cannot be written at a path. -/
  writeError? : String → Option FileError

/-- Where a log entry is written. -/
def streamOf : Log.Channel → Stream
  | .log => .out
  | .error | .warn => .err

/-- The lines of a journal. -/
def journalLines (j : Log.Journal) : List Line :=
  j.toList.map fun e => { stream := streamOf e.channel, text := e.line }

end Chip8.Command
