/-
# Chip8.Proofs.FlagArithmetic -- sums, differences and shifts are exact

A register holds a byte, so a sum, a difference or a doubled byte need not fit into it.  What is
lost there is in the flag: a carry counts 256, a flag of zero after a difference says that 256
was borrowed, and a shift to the right keeps the bit that falls out.  The instruction balances
its operands with result and flag (`byte_add`, `byte_sub`, `byte_half`, `byte_double`).

If the result goes to the flag register itself, the later of two writes wins.  Sums and
differences write the flag last and lose the result; shifts write it first, and then shift what
they have written.  `Machine.Calculates` says for each instruction which holds, and
`arithmetic_is_exact` that every step keeps to it.
-/
import Chip8.Proofs.Stepping

set_option autoImplicit false

namespace Chip8

/-! ## Bytes -/

theorem byte_add (a b : UInt8) :
    256 * ((decide (255 < a.toNat + b.toNat)).toNat : Int) + ((a + b).toNat : Int) =
      a.toNat + b.toNat := by
  have first := a.toNat_lt
  have second := b.toNat_lt
  rw [UInt8.toNat_add]
  by_cases carry : 255 < a.toNat + b.toNat
  · rw [decide_eq_true carry, Bool.toNat_true]
    omega
  · rw [decide_eq_false carry, Bool.toNat_false]
    omega

theorem byte_sub (a b : UInt8) :
    ((a - b).toNat : Int) = a.toNat - b.toNat + 256 * (1 - (decide (b ≤ a)).toNat) := by
  have first := a.toNat_lt
  have second := b.toNat_lt
  rw [UInt8.toNat_sub]
  by_cases enough : b ≤ a
  · rw [decide_eq_true enough, Bool.toNat_true]
    rw [UInt8.le_iff_toNat_le] at enough
    omega
  · rw [decide_eq_false enough, Bool.toNat_false]
    rw [UInt8.le_iff_toNat_le] at enough
    omega

theorem byte_half (a : UInt8) :
    2 * ((a >>> 1).toNat : Int) + ((a.toNat.testBit 0).toNat : Int) = a.toNat := by
  have half : (a >>> 1).toNat = a.toNat / 2 := by
    rw [UInt8.toNat_shiftRight]
    rfl
  rw [half, Nat.toNat_testBit]
  omega

theorem byte_double (a : UInt8) :
    256 * ((a.toNat.testBit 7).toNat : Int) + ((a <<< 1).toNat : Int) = 2 * a.toNat := by
  have small := a.toNat_lt
  have double : (a <<< 1).toNat = a.toNat * 2 % 256 := by
    rw [UInt8.toNat_shiftLeft, Nat.shiftLeft_eq]
    rfl
  rw [double, Nat.toNat_testBit]
  omega

namespace Instruction

/-- The instructions that calculate with registers. -/
def IsArithmetic : Instruction → Prop
  | .addByte _ _ | .or _ _ | .and _ _ | .xor _ _ | .add _ _ | .sub _ _ | .subFrom _ _
  | .shiftRight _ _ | .shiftLeft _ _ => True
  | _ => False

end Instruction

namespace Machine

variable {m after : Machine} {ins : Instruction} {x : Register}

/-! ## Results and flags -/

/-- The byte in a register, as a number. -/
def value (m : Machine) (x : Register) : Int := (m.reg x).toNat

/-- The flag is zero or one, and exact together with a result.  That is in register `x`, unless
the flag has taken its place. -/
def Flagged (m : Machine) (x : Register) (Exact : Int → Int → Prop) : Prop :=
  (m.value flagRegister = 0 ∨ m.value flagRegister = 1) ∧
    ∃ result, 0 ≤ result ∧ result ≤ 255 ∧ Exact result (m.value flagRegister) ∧
      (x ≠ flagRegister → m.value x = result)

/-- What a calculating instruction makes of the registers of a machine. -/
def Calculates (m after : Machine) : Instruction → Prop
  | .addByte x byte => after.value x = (m.value x + byte.toNat) % 256
  | .or x y => ∀ bit, (after.reg x).toNat.testBit bit =
      ((m.reg x).toNat.testBit bit || (m.reg y).toNat.testBit bit)
  | .and x y => ∀ bit, (after.reg x).toNat.testBit bit =
      ((m.reg x).toNat.testBit bit && (m.reg y).toNat.testBit bit)
  | .xor x y => ∀ bit, (after.reg x).toNat.testBit bit =
      ((m.reg x).toNat.testBit bit ^^ (m.reg y).toNat.testBit bit)
  | .add x y => after.Flagged x fun result flag => 256 * flag + result = m.value x + m.value y
  | .sub x y =>
    after.Flagged x fun result flag => result = m.value x - m.value y + 256 * (1 - flag)
  | .subFrom x y =>
    after.Flagged x fun result flag => result = m.value y - m.value x + 256 * (1 - flag)
  | .shiftRight x _ =>
    if x = flagRegister then after.value flagRegister = 0
    else after.Flagged x fun result flag => 2 * result + flag = m.value x
  | .shiftLeft x _ =>
    if x = flagRegister then
      after.value flagRegister = 2 * ((m.reg x).toNat.testBit 7).toNat
    else after.Flagged x fun result flag => 256 * flag + result = 2 * m.value x
  | _ => False

theorem Flagged.intro {on : Bool} {byte : UInt8} {Exact : Int → Int → Prop}
    (flag : after.reg flagRegister = if on then 1 else 0)
    (result : x ≠ flagRegister → after.reg x = byte)
    (exact : Exact byte.toNat on.toNat) : after.Flagged x Exact := by
  have small := byte.toNat_lt
  have shown : after.value flagRegister = on.toNat := by
    rw [value, flag]
    cases on <;> rfl
  refine ⟨?_, byte.toNat, by omega, by omega, ?_, ?_⟩
  · rw [shown]
    cases on <;> simp
  · rw [shown]
    exact exact
  · intro other
    rw [value, result other]

/-- A result that is followed by its flag. -/
theorem flagged_setFlag (m : Machine) (on : Bool) {byte : UInt8} {Exact : Int → Int → Prop}
    (exact : Exact byte.toNat on.toNat) :
    ((m.setV x byte).setFlag on).Flagged x Exact := by
  refine Flagged.intro (reg_setFlag_self _ on) ?_ exact
  intro other
  rw [reg_setFlag_of_ne _ _ other, reg_setV, if_pos rfl]

/-- A result that follows its flag, in a register of its own. -/
theorem flagged_setV (m : Machine) (on : Bool) {byte : UInt8} {Exact : Int → Int → Prop}
    (other : x ≠ flagRegister) (exact : Exact byte.toNat on.toNat) :
    ((m.setFlag on).setV x byte).Flagged x Exact := by
  refine Flagged.intro ?_ ?_ exact
  · rw [reg_setV, if_neg other.symm, reg_setFlag_self]
  · intro _
    rw [reg_setV, if_pos rfl]

/-! ## Instructions -/

/-- An instruction that calculates goes on behind itself, with an exact result. -/
theorem execute_calculates (m : Machine) (now : Rat) (here : Nat) (arithmetic : ins.IsArithmetic) :
    (m.execute now here ins).2 = .ok (here + 2) ∧
      m.Calculates (m.execute now here ins).1 ins := by
  cases ins with
  | addByte x byte =>
    refine ⟨rfl, ?_⟩
    have first := (m.reg x).toNat_lt
    simp only [execute, Calculates, value, reg_setV, if_pos, UInt8.toNat_add]
    omega
  | or x y | and x y | xor x y =>
    refine ⟨rfl, ?_⟩
    intro bit
    simp [execute, reg_setV]
  | add x y =>
    refine ⟨rfl, ?_⟩
    simp only [execute, Calculates]
    exact flagged_setFlag m _ (byte_add (m.reg x) (m.reg y))
  | sub x y =>
    refine ⟨rfl, ?_⟩
    simp only [execute, Calculates]
    exact flagged_setFlag m _ (byte_sub (m.reg x) (m.reg y))
  | subFrom x y =>
    refine ⟨rfl, ?_⟩
    simp only [execute, Calculates]
    exact flagged_setFlag m _ (byte_sub (m.reg y) (m.reg x))
  | shiftRight x y =>
    refine ⟨rfl, ?_⟩
    by_cases same : x = flagRegister
    · subst same
      simp only [execute, Calculates, if_pos, value, reg_setV, reg_setFlag_self]
      cases (m.reg flagRegister).toNat.testBit 0 <;> rfl
    · simp only [execute, Calculates, if_neg same, reg_setFlag_of_ne _ _ same]
      exact flagged_setV m _ same (byte_half (m.reg x))
  | shiftLeft x y =>
    refine ⟨rfl, ?_⟩
    by_cases same : x = flagRegister
    · subst same
      simp only [execute, Calculates, if_pos, value, reg_setV, reg_setFlag_self]
      cases (m.reg flagRegister).toNat.testBit 7 <;> rfl
    · simp only [execute, Calculates, if_neg same, reg_setFlag_of_ne _ _ same]
      exact flagged_setV m _ same (byte_double (m.reg x))
  | _ => exact arithmetic.elim

/-- **Flag arithmetic is exact.**  A step at an instruction that calculates succeeds.  Result and
flag together are the exact sum, difference, half or double, also where the two operands share a
register or the second is the flag register.  Where the first is, a sum or difference leaves the
flag that belongs to it, half of it leaves zero and its double twice its highest bit.  Adding a
byte is adding modulo 256, and the logical operations work bit by bit.  Only the registers that
the instruction names as written change. -/
theorem arithmetic_is_exact (next : m.Upcoming ins) (arithmetic : ins.IsArithmetic) (now : Rat) :
    ∃ after, m.step now = (after, .ok ins) ∧ m.Calculates after ins ∧
      ∀ r, ¬ ins.WritesRegister r → after.reg r = m.reg r := by
  obtain ⟨here, atPc, inside, found⟩ := next
  obtain ⟨goesOn, exact⟩ :=
    execute_calculates { m with lastStepAt := now } now here arithmetic
  refine ⟨_, step_eq_ok_iff.mpr ⟨here, here + 2, atPc, inside, found, goesOn, rfl⟩, ?_, ?_⟩
  · cases ins <;> exact exact
  · intro r other
    exact execute_reg { m with lastStepAt := now } now here ins other

/-- A machine about to subtract VF from V1, with 241 in VF and 17 in V1. -/
def borrowing : Machine :=
  { ((create 0 (RandomStream.cycle [])).loadRom [0x81, 0xf5]).1 with
    v := Vector.ofFn fun r => UInt8.ofNat (16 * r.val + 1) }

/-- The difference is borrowed for, and VF, though it was an operand, tells so. -/
theorem arithmetic_is_exact_borrowing :
    ∃ after, borrowing.step 3 = (after, .ok (.sub 1 0xf)) ∧ after.value 1 = 17 - 241 + 256 ∧
      after.value flagRegister = 0 := by
  have next : borrowing.Upcoming (.sub 1 0xf) := ⟨0x200, rfl, by decide, by decide +kernel⟩
  obtain ⟨after, ok, ⟨flag, result, low, high, exact, place⟩, -⟩ :=
    arithmetic_is_exact next trivial 3
  have first : borrowing.value 1 = 17 := by decide +kernel
  have second : borrowing.value 0xf = 241 := by decide +kernel
  rw [first, second] at exact
  have placed := place (by decide)
  exact ⟨after, ok, by omega, by omega⟩

end Machine

end Chip8
