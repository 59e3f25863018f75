/-
# Chip8.Proofs.Footprint -- what a successful step changes

Each part of the machine has its own lemma: a step changes it only through an instruction
that may (`step_reg`, `step_index`, `step_memory`, `step_cells`, `step_timer`), changes it
in one known way (`step_stack`, `step_random`) or not at all (`step_latch`).

The program counter goes where `nextPc` says.  That place is inside a word for every
instruction but a return (`nextPc_of_ne_ret`), so wrapping changes nothing there; a return
takes the popped entry modulo `2 ^ 16`, which is the entry itself if that is a word.

`Footprint` gathers all of this, and `step_footprint` is the statement about every step.
-/
import Chip8.Proofs.Stepping

set_option autoImplicit false

namespace Chip8.Machine

variable {m after : Machine} {now : Rat} {here : Nat} {ins : Instruction}

/-! ## Part by part -/

theorem step_reg (ok : m.step now = (after, .ok ins)) {r : Register}
    (other : ¬ ins.WritesRegister r) : after.reg r = m.reg r := by
  obtain ⟨here, next, -, -, -, -, rfl⟩ := step_eq_ok_iff.mp ok
  exact execute_reg { m with lastStepAt := now } now here ins other

theorem step_index (ok : m.step now = (after, .ok ins)) (other : ¬ ins.SetsIndex) :
    after.i = m.i := by
  obtain ⟨here, next, -, -, -, -, rfl⟩ := step_eq_ok_iff.mp ok
  exact execute_index { m with lastStepAt := now } now here other

theorem step_memory (ok : m.step now = (after, .ok ins)) {a : Fin 4096}
    (outside : ¬ (m.i ≤ (a.val : Rat) ∧ (a.val : Rat) < m.i + (ins.bytesStored : Rat))) :
    after.memory.get a = m.memory.get a := by
  obtain ⟨here, next, -, -, -, -, rfl⟩ := step_eq_ok_iff.mp ok
  exact execute_memory { m with lastStepAt := now } now here ins outside

theorem step_cells (ok : m.step now = (after, .ok ins)) (other : ¬ ins.Paints) :
    after.screen.cells = m.screen.cells := by
  obtain ⟨here, next, -, -, -, -, rfl⟩ := step_eq_ok_iff.mp ok
  exact execute_cells { m with lastStepAt := now } now here other

theorem step_lastStepAt (ok : m.step now = (after, .ok ins)) : after.lastStepAt = now := by
  obtain ⟨here, next, -, -, -, -, rfl⟩ := step_eq_ok_iff.mp ok
  exact execute_lastStepAt { m with lastStepAt := now } now here ins

theorem step_lastFlushAt (ok : m.step now = (after, .ok ins)) :
    after.screen.lastFlushAt = m.screen.lastFlushAt := by
  obtain ⟨here, next, -, -, -, -, rfl⟩ := step_eq_ok_iff.mp ok
  exact execute_lastFlushAt { m with lastStepAt := now } now here ins

theorem step_timer (ok : m.step now = (after, .ok ins)) (other : ¬ ins.SetsTimer) :
    after.timer = m.timer := by
  obtain ⟨here, next, -, -, -, -, rfl⟩ := step_eq_ok_iff.mp ok
  exact execute_timer { m with lastStepAt := now } now here other

theorem step_latch (ok : m.step now = (after, .ok ins)) : after.latch = m.latch := by
  obtain ⟨here, next, -, -, -, -, rfl⟩ := step_eq_ok_iff.mp ok
  exact execute_latch { m with lastStepAt := now } now here ins

theorem step_random (ok : m.step now = (after, .ok ins)) :
    after.random = { m.random with drawn := m.random.drawn + ins.bytesDrawn } := by
  obtain ⟨here, next, -, -, -, -, rfl⟩ := step_eq_ok_iff.mp ok
  exact execute_random { m with lastStepAt := now } now here ins

theorem step_decoded (ok : m.step now = (after, .ok ins)) :
    ∃ p : Nat, m.pc = (p : Rat) ∧ p ≤ 0xffe ∧
      Instruction.decode (m.memory.wordAt p) = some ins := by
  obtain ⟨here, next, atPc, inside, found, -, -⟩ := step_eq_ok_iff.mp ok
  exact ⟨here, atPc, inside, found⟩

theorem step_stack (ok : m.step now = (after, .ok ins)) :
    after.stack = m.nextStack (m.pc + 2) ins := by
  obtain ⟨here, next, atPc, -, -, -, rfl⟩ := step_eq_ok_iff.mp ok
  have behind : m.pc + 2 = ((here + 2 : Nat) : Rat) := pc_add atPc 2
  rw [behind]
  have pushed := execute_stack { m with lastStepAt := now } now here ins
  cases ins <;> exact pushed

theorem step_ret_nonempty (ok : m.step now = (after, .ok .ret)) :
    ∃ top rest, m.stack = top :: rest := by
  obtain ⟨here, next, -, -, -, answer, -⟩ := step_eq_ok_iff.mp ok
  cases entries : m.stack with
  | nil =>
    simp only [execute, entries] at answer
    cases answer
  | cons top rest => exact ⟨top, rest, rfl⟩

/-! ## The program counter -/

/-- Where a program goes on after anything but a return is a small whole number. -/
theorem nextPc_of_ne_ret (atPc : m.pc = (here : Rat)) (inside : here ≤ 0xffe)
    (other : ins ≠ .ret) : ∃ n : Nat, n ≤ 0x10fe ∧ m.nextPc ins = (n : Rat) := by
  have two : m.pc + 2 = ((here + 2 : Nat) : Rat) := pc_add atPc 2
  have four : m.pc + 4 = ((here + 4 : Nat) : Rat) := pc_add atPc 4
  unfold nextPc
  split
  · exact absurd rfl other
  · rename_i target
    exact ⟨target.val, by omega, rfl⟩
  · rename_i target
    exact ⟨target.val, by omega, rfl⟩
  · rename_i target
    have offset := (m.reg firstRegister).toNat_lt
    exact ⟨target.val + (m.reg firstRegister).toNat, by omega, (Rat.natCast_add _ _).symm⟩
  · split
    · exact ⟨here, by omega, atPc⟩
    · exact ⟨here + 2, by omega, two⟩
  · split
    · exact ⟨here + 4, by omega, four⟩
    · exact ⟨here + 2, by omega, two⟩

/-- The program counter goes where the instruction says, modulo `2 ^ 16`. -/
theorem step_pc (ok : m.step now = (after, .ok ins)) :
    after.pc = (wrapWord (m.nextPc ins) : Rat) := by
  obtain ⟨here, next, atPc, -, -, answer, rfl⟩ := step_eq_ok_iff.mp ok
  have place := execute_next (m := { m with lastStepAt := now }) atPc answer
  have same : ({ m with lastStepAt := now } : Machine).nextPc ins = m.nextPc ins := by
    cases ins <;> rfl
  rw [same] at place
  rw [place]

theorem wrapWord_of_lt {q : Rat} {w : Nat} (word : w < 65536) (whole : q = (w : Rat)) :
    ((wrapWord q : Nat) : Rat) = q := by
  rw [whole, wrapWord_natCast, Nat.mod_eq_of_lt word]

theorem step_pc_of_ne_ret (ok : m.step now = (after, .ok ins)) (other : ins ≠ .ret) :
    after.pc = m.nextPc ins := by
  obtain ⟨p, atPc, inside, -⟩ := step_decoded ok
  obtain ⟨n, small, place⟩ := nextPc_of_ne_ret atPc inside other
  rw [step_pc ok]
  exact wrapWord_of_lt (by omega) place

/-! ## All parts -/

/-- A machine `after` differs from `m` only where the instruction `ins` may change it. -/
structure Footprint (m : Machine) (now : Rat) (ins : Instruction) (after : Machine) : Prop where
  decoded : ∃ p : Nat, m.pc = (p : Rat) ∧ p ≤ 0xffe ∧
    Instruction.decode (m.memory.wordAt p) = some ins
  registers : ∀ r, ¬ ins.WritesRegister r → after.reg r = m.reg r
  index : ¬ ins.SetsIndex → after.i = m.i
  stack : after.stack = m.nextStack (m.pc + 2) ins
  popped : ins = .ret → ∃ top rest, m.stack = top :: rest
  memory : ∀ a : Fin 4096,
    ¬ (m.i ≤ (a.val : Rat) ∧ (a.val : Rat) < m.i + (ins.bytesStored : Rat)) →
      after.memory.get a = m.memory.get a
  cells : ¬ ins.Paints → after.screen.cells = m.screen.cells
  shown : after.screen.lastFlushAt = m.screen.lastFlushAt
  timer : ¬ ins.SetsTimer → after.timer = m.timer
  latch : after.latch = m.latch
  stepped : after.lastStepAt = now
  random : after.random = { m.random with drawn := m.random.drawn + ins.bytesDrawn }
  wrapped : after.pc = (wrapWord (m.nextPc ins) : Rat)
  /-- A popped entry has to be a word; all other places are. -/
  pc : (ins = .ret → ∃ w : Nat, w < 65536 ∧ m.stack.head? = some (w : Rat)) →
    after.pc = m.nextPc ins

/-- **A successful step stays inside the footprint of its instruction.** -/
theorem step_footprint (ok : m.step now = (after, .ok ins)) : m.Footprint now ins after where
  decoded := step_decoded ok
  registers _ other := step_reg ok other
  index := step_index ok
  stack := step_stack ok
  popped := by
    rintro rfl
    exact step_ret_nonempty ok
  memory _ outside := step_memory ok outside
  cells := step_cells ok
  shown := step_lastFlushAt ok
  timer := step_timer ok
  latch := step_latch ok
  stepped := step_lastStepAt ok
  random := step_random ok
  wrapped := step_pc ok
  pc := by
    intro word
    by_cases ret : ins = .ret
    · obtain ⟨w, small, top⟩ := word ret
      subst ret
      rw [step_pc ok]
      refine wrapWord_of_lt small ?_
      rw [nextPc, List.headD_eq_head?_getD, top, Option.getD_some]
    · exact step_pc_of_ne_ret ok ret

/-- A machine about to add VF to itself: the sum and its carry go to one register. -/
def aliased : Machine :=
  { ((create 0 (RandomStream.cycle [])).loadRom [0x8f, 0xf4]).1 with
    v := Vector.ofFn fun r => UInt8.ofNat (16 * r.val + 1) }

/-- The step succeeds, and stays inside the footprint of an addition. -/
theorem step_footprint_aliased :
    ∃ after, aliased.step 3 = (after, .ok (.add 0xf 0xf)) ∧
      aliased.Footprint 3 (.add 0xf 0xf) after := by
  have found : Instruction.decode (aliased.memory.wordAt 0x200) = some (.add 0xf 0xf) := by
    decide +kernel
  have done : ∃ after, aliased.step 3 = (after, .ok (.add 0xf 0xf)) :=
    ⟨_, step_eq_ok_iff.mpr ⟨0x200, 0x202, rfl, by decide, found, rfl, rfl⟩⟩
  obtain ⟨after, ok⟩ := done
  exact ⟨after, ok, step_footprint ok⟩

end Chip8.Machine
