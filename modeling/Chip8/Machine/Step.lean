/-
# Chip8.Machine.Step -- one instruction

`step` tries one instruction: it reads the word at the program counter, decodes it,
executes it and moves the program counter.  The answer is the machine that is left and the
instruction executed, or the fault.  A fault leaves what was done before it: the bytes
written, the registers loaded or the rows drawn until memory ended; the program counter
stays.

`execute` gives each instruction its effect and the place where the program goes on.  Where
an instruction sets the flag and a register, the order counts if the register is VF: sums
and differences write the flag last, shifts write it first.  A delay that has no value is
loaded as zero.
-/
import Chip8.Instruction.Decode
import Chip8.Machine.Basic

set_option autoImplicit false

namespace Chip8.Machine

/-! ## Fetching -/

/-- The place of the program counter and the word that stands there. -/
def fetch (m : Machine) : Except Fault (Nat × Nat) :=
  match Memory.address? m.pc with
  | some k =>
    match m.memory.read (m.pc + 1) with
    | .ok low => .ok (k.val, Word.ofBytes (m.memory.get k) low)
    | .error fault => .error fault
  | none => .error (.memoryAccess m.pc)

/-! ## Executing -/

/-- The place after the next instruction if a condition holds, and of the next otherwise. -/
def skipIf (here : Nat) (condition : Bool) : Nat := if condition then here + 4 else here + 2

/-- A run of memory that ended at a fault, or else goes on at `next`. -/
def unlessFault (m : Machine) (fault : Option Fault) (next : Nat) : Machine × Except Fault Nat :=
  match fault with
  | some f => (m, .error f)
  | none => (m, .ok next)

/-- The three decimal digits of a byte, the highest first. -/
def decimalDigits (b : UInt8) : List UInt8 := [b / 100, b % 100 / 10, b % 10]

/-- The effect of an instruction standing at `here`, and where the program goes on. -/
def execute (m : Machine) (now : Rat) (here : Nat) : Instruction → Machine × Except Fault Nat
  | .clear => (m.setGrid Grid.blank, .ok (here + 2))
  | .ret =>
    match m.stack with
    | [] => (m, .error (.stackUnderflow m.pc))
    | top :: rest => ({ m with stack := rest }, .ok (wrapWord top))
  | .jump target => (m, .ok target.val)
  | .call target => ({ m with stack := ((here + 2 : Nat) : Rat) :: m.stack }, .ok target.val)
  | .skipEqByte x byte => (m, .ok (skipIf here (m.reg x == byte)))
  | .skipNeByte x byte => (m, .ok (skipIf here (m.reg x != byte)))
  | .skipEq x y => (m, .ok (skipIf here (m.reg x == m.reg y)))
  | .loadByte x byte => (m.setV x byte, .ok (here + 2))
  | .addByte x byte => (m.setV x (m.reg x + byte), .ok (here + 2))
  | .copy x y => (m.setV x (m.reg y), .ok (here + 2))
  | .or x y => (m.setV x (m.reg x ||| m.reg y), .ok (here + 2))
  | .and x y => (m.setV x (m.reg x &&& m.reg y), .ok (here + 2))
  | .xor x y => (m.setV x (m.reg x ^^^ m.reg y), .ok (here + 2))
  | .add x y =>
    let carry := decide (255 < (m.reg x).toNat + (m.reg y).toNat)
    ((m.setV x (m.reg x + m.reg y)).setFlag carry, .ok (here + 2))
  | .sub x y =>
    let enough := decide (m.reg y ≤ m.reg x)
    ((m.setV x (m.reg x - m.reg y)).setFlag enough, .ok (here + 2))
  | .subFrom x y =>
    let enough := decide (m.reg x ≤ m.reg y)
    ((m.setV x (m.reg y - m.reg x)).setFlag enough, .ok (here + 2))
  | .shiftRight x _ =>
    let m := m.setFlag ((m.reg x).toNat.testBit 0)
    (m.setV x (m.reg x >>> 1), .ok (here + 2))
  | .shiftLeft x _ =>
    let m := m.setFlag ((m.reg x).toNat.testBit 7)
    (m.setV x (m.reg x <<< 1), .ok (here + 2))
  | .skipNe x y => (m, .ok (skipIf here (m.reg x != m.reg y)))
  | .loadIndex target => ({ m with i := (target.val : Rat) }, .ok (here + 2))
  | .jumpOffset target => (m, .ok (target.val + (m.reg firstRegister).toNat))
  | .random x mask =>
    let (b, random) := m.random.next
    ({ m with random }.setV x (b &&& mask), .ok (here + 2))
  | .draw x y rows =>
    let (bytes, fault) := m.memory.readFrom m.i rows.val
    let (g, erased) :=
      Grid.drawRows (byteValue (m.reg x)) (m.reg y).toNat (m.screen.cells, false) bytes
    match fault with
    | some f => (m.setGrid g, .error f)
    | none => ((m.setGrid g).setFlag erased, .ok (here + 2))
  | .skipPressed x => (m, .ok (skipIf here (m.latch.isPressed (byteValue (m.reg x)))))
  | .skipReleased x => (m, .ok (skipIf here (!m.latch.isPressed (byteValue (m.reg x)))))
  | .readTimer x => (m.setV x ((m.timer.read now).getD 0), .ok (here + 2))
  | .waitKey x =>
    match m.latch.key with
    | none => (m, .ok here)
    | some key => (m.setV x (wrapByte key), .ok (here + 2))
  | .setTimer x => (m.setTimer (byteValue (m.reg x)) now, .ok (here + 2))
  | .setSound _ => (m, .ok (here + 2))
  | .addIndex x =>
    ({ m with i := (wrapWord (Binary64.add m.i (byteValue (m.reg x))) : Rat) }, .ok (here + 2))
  | .glyphIndex x =>
    ({ m with i := (((m.reg x).toNat * Font.rowsPerGlyph : Nat) : Rat) }, .ok (here + 2))
  | .storeDecimal x =>
    let (memory, fault) := m.memory.writeFrom m.i (decimalDigits (m.reg x))
    unlessFault { m with memory } fault (here + 2)
  | .store x =>
    let (memory, fault) := m.memory.writeFrom m.i (m.v.toList.take (x.val + 1))
    unlessFault { m with memory } fault (here + 2)
  | .load x =>
    let (bytes, fault) := m.memory.readFrom m.i (x.val + 1)
    unlessFault { m with v := m.v.overwrite 0 bytes } fault (here + 2)

/-! ## Stepping -/

/-- Tries one instruction at time `now`. -/
def step (m : Machine) (now : Rat) : Machine × Except Fault Instruction :=
  let m := { m with lastStepAt := now }
  match m.fetch with
  | .error fault => (m, .error fault)
  | .ok (here, word) =>
    match Instruction.decode word with
    | none => (m, .error (.invalidInstruction m.pc word))
    | some ins =>
      match m.execute now here ins with
      | (m, .error fault) => (m, .error fault)
      | (m, .ok next) => ({ m with pc := ((next % 65536 : Nat) : Rat) }, .ok ins)

end Chip8.Machine
