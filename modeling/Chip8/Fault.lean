/-
# Chip8.Fault -- what stops the machine

Three things stop the machine, each at a place: a word that stands for no instruction, a
return with nothing to return to, and an access to an address outside memory.
`Fault.message` is the text a user reads and `Fault.name` the word for the kind of fault.
-/
import Chip8.Number.Hexadecimal

set_option autoImplicit false

namespace Chip8

inductive Fault where
  | invalidInstruction (pc : Rat) (word : Nat)
  | stackUnderflow (pc : Rat)
  | memoryAccess (address : Rat)
deriving DecidableEq

namespace Fault

def name : Fault → String
  | .invalidInstruction .. => "InvalidInstructionError"
  | .stackUnderflow _ => "StackUnderflowError"
  | .memoryAccess _ => "MemoryAccessError"

def message : Fault → String
  | .invalidInstruction pc word =>
    "Invalid instruction: 0x" ++ Hexadecimal.upper 3 pc ++ ":0x" ++
      Hexadecimal.upper 4 (word : Rat)
  | .stackUnderflow pc => "Return with empty call stack at 0x" ++ Hexadecimal.upper 3 pc
  | .memoryAccess address => "Memory access out of range: 0x" ++ Hexadecimal.upper 4 address

end Fault

end Chip8
