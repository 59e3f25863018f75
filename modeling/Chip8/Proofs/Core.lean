/-
# Chip8.Proofs.Core -- what a program computes with

A program computes with the `Core` of its machine: registers, index, program counter,
return stack, memory and picture.  The rest lies outside it, the devices and the times at
which something was last done, and five kinds of instruction look there
(`Instruction.looksOutside`).  `Outlook` is what they can see.

What an instruction does to the core, and how it ends, is decided by the core, and by the
outlook if the instruction looks there (`execute_core`).  The rest is known from the frame
lemmas, so `ext_core` is the way to say which machine an instruction leaves.

Two machines that fetch the same word take their steps side by side: what relates them after
every instruction relates them after the step (`step_relates`).  With `execute_core` this
gives the steps of machines with one core (`step_core`).
-/
import Chip8.Proofs.Execution

set_option autoImplicit false

namespace Chip8

/-- Whether an instruction looks at the delay timer, the key latch or the random stream. -/
def Instruction.looksOutside : Instruction → Bool
  | .readTimer _ | .skipPressed _ | .skipReleased _ | .waitKey _ | .random _ _ => true
  | _ => false

namespace Machine

/-- The part of a machine that its program computes with. -/
structure Core where
  v : Registers
  i : Rat
  pc : Rat
  stack : List Rat
  memory : Memory
  cells : Grid

def core (m : Machine) : Core :=
  { v := m.v, i := m.i, pc := m.pc, stack := m.stack, memory := m.memory, cells := m.screen.cells }

/-- What an instruction can see outside the core. -/
structure Outlook where
  /-- What is loaded from the delay timer. -/
  delay : UInt8
  key : Option Rat
  /-- The next random byte. -/
  byte : UInt8

def outlook (m : Machine) (now : Rat) : Outlook :=
  { delay := (m.timer.read now).getD 0, key := m.latch.key, byte := m.random.next.1 }

/-- Machines with one core differ in what lies outside it. -/
theorem eq_of_core {m m' : Machine} (same : m'.core = m.core) :
    m' =
      { m with
        screen := { m.screen with lastFlushAt := m'.screen.lastFlushAt }
        timer := m'.timer
        latch := m'.latch
        random := m'.random
        lastStepAt := m'.lastStepAt } := by
  obtain ⟨v, i, pc, stack, memory, ⟨cells, shown⟩, timer, latch, random, stepped⟩ := m'
  obtain ⟨rfl, rfl, rfl, rfl, rfl, rfl⟩ := Core.mk.inj same
  rfl

/-- A machine is its core and what lies outside. -/
theorem ext_core {m m' : Machine} (core : m'.core = m.core) (timer : m'.timer = m.timer)
    (latch : m'.latch = m.latch) (random : m'.random = m.random)
    (stepped : m'.lastStepAt = m.lastStepAt)
    (shown : m'.screen.lastFlushAt = m.screen.lastFlushAt) : m' = m := by
  rw [eq_of_core core, timer, latch, random, stepped, shown]

/-! ## One instruction -/

section Execute

variable {m m' : Machine} {ins : Instruction}

/-- **What an instruction does to the core is decided by the core**, and by the outlook if it
looks there. -/
theorem execute_core (same : m'.core = m.core) (now now' : Rat) (here : Nat)
    (seen : ins.looksOutside = true → m'.outlook now' = m.outlook now) :
    (m'.execute now' here ins).1.core = (m.execute now here ins).1.core ∧
      (m'.execute now' here ins).2 = (m.execute now here ins).2 := by
  rw [eq_of_core same]
  cases ins with
  | readTimer x =>
    have delay : (m'.timer.read now').getD 0 = (m.timer.read now).getD 0 :=
      congrArg Outlook.delay (seen rfl)
    simp only [execute, delay, and_true]
    rfl
  | skipPressed x | skipReleased x =>
    have key : m'.latch.key = m.latch.key := congrArg Outlook.key (seen rfl)
    simp only [execute, Latch.isPressed, key]
    exact ⟨rfl, rfl⟩
  | waitKey x =>
    have key : m'.latch.key = m.latch.key := congrArg Outlook.key (seen rfl)
    simp only [execute, key]
    cases m.latch.key <;> exact ⟨rfl, rfl⟩
  | random x mask =>
    have byte : m'.random.next.1 = m.random.next.1 := congrArg Outlook.byte (seen rfl)
    simp only [execute, byte, and_true]
    rfl
  | ret => cases entries : m.stack <;> simp [execute, core, entries]
  | draw x y rows =>
    simp only [execute, reg]
    cases (m.memory.readFrom m.i rows.val).2 <;> exact ⟨rfl, rfl⟩
  | storeDecimal x =>
    simp only [execute, reg]
    cases (m.memory.writeFrom m.i (decimalDigits (m.v.get x))).2 <;> exact ⟨rfl, rfl⟩
  | store x =>
    simp only [execute]
    cases (m.memory.writeFrom m.i (m.v.toList.take (x.val + 1))).2 <;> exact ⟨rfl, rfl⟩
  | load x =>
    simp only [execute]
    cases (m.memory.readFrom m.i (x.val + 1)).2 <;> exact ⟨rfl, rfl⟩
  | _ => exact ⟨rfl, rfl⟩

/-- The timer after an instruction. -/
def nextTimer (m : Machine) (now : Rat) : Instruction → Timer
  | .setTimer x => Timer.set (byteValue (m.reg x)) now
  | _ => m.timer

theorem execute_nextTimer (m : Machine) (now : Rat) (here : Nat) (ins : Instruction) :
    (m.execute now here ins).1.timer = m.nextTimer now ins := by
  cases ins with
  | setTimer x => rfl
  | _ => exact execute_timer m now here id

/-- An instruction that looks outside does not fail. -/
theorem execute_ok_of_looksOutside (m : Machine) (now : Rat) (here : Nat)
    (looks : ins.looksOutside = true) : ∃ next, (m.execute now here ins).2 = .ok next := by
  cases ins with
  | readTimer x | skipPressed x | skipReleased x | random x mask => exact ⟨_, rfl⟩
  | waitKey x =>
    simp only [execute]
    cases m.latch.key <;> exact ⟨_, rfl⟩
  | _ => cases looks

end Execute

/-! ## Two steps side by side -/

section Steps

variable {m m' : Machine} {now now' : Rat}

/-- **What relates two machines after every instruction relates them after a step**, if they
fetch from the same place of the same memory. -/
theorem step_relates (R : Machine → Machine → Prop) (pc : m'.pc = m.pc)
    (memory : m'.memory = m.memory)
    (begun : R { m with lastStepAt := now } { m' with lastStepAt := now' })
    (executed : ∀ here word ins,
      ({ m with lastStepAt := now } : Machine).fetch = .ok (here, word) →
      Instruction.decode word = some ins →
        let left := ({ m with lastStepAt := now } : Machine).execute now here ins
        let left' := ({ m' with lastStepAt := now' } : Machine).execute now' here ins
        R left.1 left'.1 ∧ left'.2 = left.2)
    (goesOn : ∀ a a' pc, R a a' → R { a with pc } { a' with pc }) :
    R (m.step now).1 (m'.step now').1 ∧ (m'.step now').2 = (m.step now).2 := by
  have fetch : ({ m' with lastStepAt := now' } : Machine).fetch =
      ({ m with lastStepAt := now } : Machine).fetch := by
    simp only [fetch, pc, memory]
  rcases fetched : ({ m with lastStepAt := now } : Machine).fetch with fault | ⟨here, word⟩
  · simp only [step, fetch, fetched, and_true]
    exact begun
  · cases found : Instruction.decode word with
    | none =>
      simp only [step, fetch, fetched, found]
      exact ⟨begun, by rw [pc]⟩
    | some ins =>
      obtain ⟨related, answer⟩ := executed here word ins fetched found
      rcases done : ({ m with lastStepAt := now } : Machine).execute now here ins with
        ⟨left, fault | next⟩ <;>
      rcases done' : ({ m' with lastStepAt := now' } : Machine).execute now' here ins with
        ⟨left', fault' | next'⟩ <;>
      rw [done, done'] at related answer <;>
      cases answer <;>
      simp only [step, fetch, fetched, found, done, done', and_true]
      · exact related
      · exact goesOn _ _ _ related

/-- **Machines with one core take the same step**, unless its instruction looks outside and
sees something else there. -/
theorem step_core (same : m'.core = m.core)
    (seen : ∀ ins, (m.step now).2 = .ok ins → ins.looksOutside = true →
      m'.outlook now' = m.outlook now) :
    (m'.step now').1.core = (m.step now).1.core ∧ (m'.step now').2 = (m.step now).2 := by
  apply step_relates fun a a' => a'.core = a.core
  · exact congrArg Core.pc same
  · exact congrArg Core.memory same
  · exact same
  · intro here word ins fetched found left left'
    have begun : ({ m' with lastStepAt := now' } : Machine).core =
        ({ m with lastStepAt := now } : Machine).core := same
    apply execute_core begun now now' here
    intro looks
    obtain ⟨next, answer⟩ :=
      execute_ok_of_looksOutside { m with lastStepAt := now } now here looks
    refine seen ins ?_ looks
    rcases done : ({ m with lastStepAt := now } : Machine).execute now here ins with ⟨a, result⟩
    rw [done] at answer
    cases answer
    simp only [step, fetched, found, done]
  · intro a a' pc same
    exact congrArg (fun core : Core => { core with pc }) same

end Steps

end Machine

end Chip8
