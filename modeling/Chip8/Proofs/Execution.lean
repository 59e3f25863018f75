/-
# Chip8.Proofs.Execution -- what one instruction may touch

Every instruction has a small footprint: the registers it may write, whether it sets the
index, how many bytes it stores, and so on.  The frame lemmas say that executing an
instruction leaves everything outside its footprint alone, whether it succeeds or ends at a
fault (`execute_reg`, `execute_index`, `execute_memory`, `execute_cells`, ...); the return
stack is known outright (`execute_stack`).

`Machine.nextPc` says where a program goes on after an instruction, without wrapping, and
`Machine.nextStack` what is on the return stack then.
-/
import Chip8.Machine.Step
import Chip8.Proofs.MemoryRuns
import Chip8.Proofs.Sprite

set_option autoImplicit false

namespace Chip8

/-! ## Footprints -/

namespace Instruction

/-- The registers that an instruction may write. -/
def WritesRegister : Instruction → Register → Prop
  | .loadByte x _, r | .addByte x _, r | .copy x _, r | .or x _, r | .and x _, r | .xor x _, r
  | .random x _, r | .readTimer x, r | .waitKey x, r => r = x
  | .add x _, r | .sub x _, r | .subFrom x _, r | .shiftRight x _, r | .shiftLeft x _, r =>
    r = x ∨ r = flagRegister
  | .draw _ _ _, r => r = flagRegister
  | .load x, r => r ≤ x
  | _, _ => False

/-- Whether an instruction sets the index. -/
def SetsIndex : Instruction → Prop
  | .loadIndex _ | .addIndex _ | .glyphIndex _ => True
  | _ => False

/-- The number of bytes that an instruction stores, from the index on. -/
def bytesStored : Instruction → Nat
  | .storeDecimal _ => 3
  | .store x => x.val + 1
  | _ => 0

/-- The number of bytes from the index on that an instruction needs. -/
def bytesNeeded : Instruction → Nat
  | .storeDecimal _ => 3
  | .store x | .load x => x.val + 1
  | .draw _ _ rows => rows.val
  | _ => 0

/-- Whether an instruction changes the picture. -/
def Paints : Instruction → Prop
  | .clear | .draw _ _ _ => True
  | _ => False

/-- Whether an instruction sets the delay timer. -/
def SetsTimer : Instruction → Prop
  | .setTimer _ => True
  | _ => False

/-- The random bytes that an instruction takes. -/
def bytesDrawn : Instruction → Nat
  | .random _ _ => 1
  | _ => 0

/-- Whether the condition of a skip holds; instructions of other kinds have none. -/
def skips (m : Machine) : Instruction → Bool
  | .skipEqByte x byte => m.reg x = byte
  | .skipNeByte x byte => m.reg x ≠ byte
  | .skipEq x y => m.reg x = m.reg y
  | .skipNe x y => m.reg x ≠ m.reg y
  | .skipPressed x => m.latch.key = some (byteValue (m.reg x))
  | .skipReleased x => m.latch.key ≠ some (byteValue (m.reg x))
  | _ => false

end Instruction

theorem Registers.get_overwrite (v : Registers) (bytes : List UInt8) (r : Register) :
    Vector.get (v.overwrite 0 bytes) r = bytes.getD r.val (v.get r) := by
  have h : Vector.get (v.overwrite 0 bytes) r =
      if 0 ≤ r.val then bytes.getD (r.val - 0) (v.get r) else v.get r :=
    Vector.getElem_ofFn r.isLt
  rw [h, if_pos (Nat.zero_le _), Nat.sub_zero]

namespace Machine

/-- Where the program goes on after an instruction, as a number that is not wrapped.  A
return needs an entry on the stack. -/
def nextPc (m : Machine) : Instruction → Rat
  | .ret => m.stack.headD 0
  | .jump target | .call target => (target.val : Rat)
  | .jumpOffset target => target.val + byteValue (m.reg firstRegister)
  | .waitKey _ => if m.latch.key = none then m.pc else m.pc + 2
  | ins => if ins.skips m then m.pc + 4 else m.pc + 2

/-- The return stack after an instruction with the place `behind` it: a call pushes that
place, a return pops, and nothing else touches the stack. -/
def nextStack (m : Machine) (behind : Rat) : Instruction → List Rat
  | .call _ => behind :: m.stack
  | .ret => m.stack.tail
  | _ => m.stack

theorem reg_setV (m : Machine) (x r : Register) (b : UInt8) :
    (m.setV x b).reg r = if r = x then b else m.reg r := by
  have h : (m.setV x b).reg r = if x.val = r.val then b else m.reg r :=
    Vector.getElem_set x.isLt r.isLt
  simp only [h, Fin.ext_iff, eq_comm]

theorem reg_setFlag_self (m : Machine) (on : Bool) :
    (m.setFlag on).reg flagRegister = if on then 1 else 0 := by
  rw [setFlag, reg_setV, if_pos rfl]

theorem reg_setFlag_of_ne (m : Machine) (on : Bool) {r : Register} (ne : r ≠ flagRegister) :
    (m.setFlag on).reg r = m.reg r := by
  rw [setFlag, reg_setV, if_neg ne]

theorem length_take_registers (m : Machine) (x : Register) :
    (m.v.toList.take (x.val + 1)).length = x.val + 1 := by
  have inside := x.isLt
  rw [List.length_take, Vector.length_toList, Nat.min_eq_left (by omega)]

@[simp] theorem unlessFault_fst (m : Machine) (fault : Option Fault) (next : Nat) :
    (m.unlessFault fault next).1 = m := by
  cases fault <;> rfl

/-! ## Frames -/

section Frames

-- all frame lemmas take `execute` apart: its equations are derived here, and not in each of them
attribute [local simp] execute

variable (m : Machine) (now : Rat) (here : Nat) (ins : Instruction)

theorem execute_pc : (m.execute now here ins).1.pc = m.pc := by
  cases ins <;> simp only [execute, unlessFault_fst] <;> (try split) <;> rfl

theorem execute_latch : (m.execute now here ins).1.latch = m.latch := by
  cases ins <;> simp only [execute, unlessFault_fst] <;> (try split) <;> rfl

theorem execute_lastStepAt : (m.execute now here ins).1.lastStepAt = m.lastStepAt := by
  cases ins <;> simp only [execute, unlessFault_fst] <;> (try split) <;> rfl

theorem execute_lastFlushAt :
    (m.execute now here ins).1.screen.lastFlushAt = m.screen.lastFlushAt := by
  cases ins <;> simp only [execute, unlessFault_fst] <;> (try split) <;> rfl

variable {ins}

theorem execute_index (other : ¬ ins.SetsIndex) : (m.execute now here ins).1.i = m.i := by
  cases ins <;> simp only [Instruction.SetsIndex, not_true] at other <;>
    simp only [execute, unlessFault_fst] <;> (try split) <;> rfl

theorem execute_timer (other : ¬ ins.SetsTimer) : (m.execute now here ins).1.timer = m.timer := by
  cases ins <;> simp only [Instruction.SetsTimer, not_true] at other <;>
    simp only [execute, unlessFault_fst] <;> (try split) <;> rfl

theorem execute_cells (other : ¬ ins.Paints) :
    (m.execute now here ins).1.screen.cells = m.screen.cells := by
  cases ins <;> simp only [Instruction.Paints, not_true] at other <;>
    simp only [execute, unlessFault_fst] <;> (try split) <;> rfl

variable (ins)

/-- The random stream moves on by the bytes taken. -/
theorem execute_random :
    (m.execute now here ins).1.random =
      { m.random with drawn := m.random.drawn + ins.bytesDrawn } := by
  cases ins <;> simp only [execute, unlessFault_fst] <;> (try split) <;> rfl

theorem execute_stack :
    (m.execute now here ins).1.stack = m.nextStack ((here + 2 : Nat) : Rat) ins := by
  cases ins with
  | ret =>
    show (m.execute now here .ret).1.stack = m.stack.tail
    cases entries : m.stack with
    | nil =>
      simp only [execute, entries]
      rfl
    | cons top rest =>
      simp only [execute, entries]
      rfl
  | _ =>
    simp only [execute, unlessFault_fst]
    (try split) <;> rfl

/-- A register that an instruction does not write keeps its byte. -/
theorem execute_reg {r : Register} (other : ¬ ins.WritesRegister r) :
    (m.execute now here ins).1.reg r = m.reg r := by
  cases ins with
  | load x =>
    have beyond : x.val < r.val := Nat.lt_of_not_le other
    simp only [execute, unlessFault_fst]
    show Vector.get (m.v.overwrite 0 (m.memory.readFrom m.i (x.val + 1)).1) r = m.reg r
    have short := Memory.length_readFrom_le m.memory m.i (x.val + 1)
    rw [Registers.get_overwrite, List.getD_eq_default _ _ (by omega), reg]
  | draw x y rows =>
    have ne : r ≠ flagRegister := other
    simp only [execute]
    split
    · rfl
    · exact reg_setFlag_of_ne _ _ ne
  | waitKey x =>
    have ne : r ≠ x := other
    simp only [execute]
    split
    · rfl
    · rw [reg_setV, if_neg ne]
  | shiftRight x y | shiftLeft x y =>
    have ne : ¬ (r = x ∨ r = flagRegister) := other
    rw [not_or] at ne
    simp only [execute]
    rw [reg_setV, if_neg ne.1, reg_setFlag_of_ne _ _ ne.2]
  | add x y | sub x y | subFrom x y =>
    have ne : ¬ (r = x ∨ r = flagRegister) := other
    rw [not_or] at ne
    simp only [execute]
    rw [reg_setFlag_of_ne _ _ ne.2, reg_setV, if_neg ne.1]
  | random x mask =>
    have ne : r ≠ x := other
    simp only [execute]
    rw [reg_setV, if_neg ne]
    rfl
  | loadByte x _ | addByte x _ | copy x _ | or x _ | and x _ | xor x _ | readTimer x =>
    have ne : r ≠ x := other
    simp only [execute]
    rw [reg_setV, if_neg ne]
  | _ => simp only [execute, unlessFault_fst] <;> (try split) <;> rfl

/-- Memory outside the bytes stored is left alone. -/
theorem execute_memory {a : Fin 4096}
    (outside : ¬ (m.i ≤ (a.val : Rat) ∧ (a.val : Rat) < m.i + (ins.bytesStored : Rat))) :
    (m.execute now here ins).1.memory.get a = m.memory.get a := by
  cases ins with
  | storeDecimal x =>
    simp only [execute, unlessFault_fst]
    exact Memory.get_writeFrom_of_outside _ outside
  | store x =>
    simp only [execute, unlessFault_fst]
    refine Memory.get_writeFrom_of_outside _ ?_
    rw [length_take_registers]
    exact outside
  | _ => simp only [execute, unlessFault_fst] <;> (try split) <;> rfl

end Frames

end Machine

end Chip8
