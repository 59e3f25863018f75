/-
# Chip8.Proofs.OutsideInfluence -- how the outside gets into a program

A program learns of what lies outside its core by the five kinds of instruction that look
there, and by no other way.  Whoever holds a machine works on the core by steps and by
loading programs (`Operation.inside?`); keys, the timer and the frames are outside, and so
is the clock.

Two machines with one core are worked on alike there, while anything may be done around
them, and at readings of two clocks that have nothing to do with each other.  Operation by
operation their cores stay the same (`perform_core`), as long as no instruction of the one
looks outside, and `outside_enters_by_looking` says so of whole schedules.
-/
import Chip8.Proofs.Core
import Chip8.Proofs.ReturnStack
import Chip8.Proofs.Rounds

set_option autoImplicit false

namespace Chip8

/-- The operation, if it works on the core of a machine. -/
def Operation.inside? : Operation → Option Operation
  | .step => some .step
  | .loadRom image => some (.loadRom image)
  | .press _ | .release | .setTimer _ | .flush => none

theorem Operation.eq_of_inside {op op' : Operation} (inside : op.inside? = some op') :
    op = op' := by
  cases op with
  | step | loadRom image => exact Option.some.inj inside
  | _ => cases inside

namespace Machine

variable {m m' : Machine}

/-! ## One operation -/

/-- What is done around a program leaves its core alone. -/
theorem perform_core_of_outside (m : Machine) (now : Rat) {op : Operation}
    (outside : op.inside? = none) : (m.perform now op).core = m.core := by
  cases op with
  | press key | setTimer value | flush => rfl
  | release =>
    simp only [perform, release]
    cases m.latch.release now <;> rfl
  | step | loadRom image => cases outside

/-- A program is loaded into the core. -/
theorem loadRom_core (same : m'.core = m.core) (image : List Rat) :
    (m'.loadRom image).1.core = (m.loadRom image).1.core := by
  rw [eq_of_core same]
  rfl

/-- **Machines with one core have one core after operations that do the same inside**, unless
a step looks outside. -/
theorem perform_core (same : m'.core = m.core) {now now' : Rat} {op op' : Operation}
    (alike : op'.inside? = op.inside?)
    (inward : op = .step → ∀ ins, (m.step now).2 = .ok ins → ins.looksOutside = false) :
    (m'.perform now' op').core = (m.perform now op).core := by
  cases inside : op.inside? with
  | none =>
    rw [perform_core_of_outside m now inside, perform_core_of_outside m' now' (alike.trans inside)]
    exact same
  | some work =>
    obtain rfl := Operation.eq_of_inside inside
    obtain rfl := Operation.eq_of_inside (alike.trans inside)
    cases op' with
    | step =>
      refine (step_core same ?_).1
      intro ins done looks
      rw [inward rfl ins done] at looks
      cases looks
    | loadRom image => exact loadRom_core same image
    | _ => cases inside

/-! ## Schedules -/

/-- **The outside enters a program by looking, and in no other way.**  Two machines with one
core go through schedules that do the same inside, such as so many steps, each at readings of
its own and with anything done in between to keys, timer and frames.  If none of the
instructions that the first executes looks outside, the machines have one core after every
operation, and each step of the second executes the same instruction as that of the first or
ends at the same fault. -/
theorem outside_enters_by_looking (same : m'.core = m.core) {schedule schedule' : Schedule}
    {n : Nat} (alike : ∀ k < n, (schedule' k).1.inside? = (schedule k).1.inside?)
    (inward : ∀ k < n, (m.executed schedule k).any Instruction.looksOutside = false) :
    (∀ k ≤ n, (m'.after schedule' k).core = (m.after schedule k).core) ∧
      ∀ k < n, (schedule k).1 = .step →
        (schedule' k).1 = .step ∧
          ((m'.after schedule' k).step (schedule' k).2).2 =
            ((m.after schedule k).step (schedule k).2).2 := by
  have inward' : ∀ k < n, (schedule k).1 = .step → ∀ ins,
      ((m.after schedule k).step (schedule k).2).2 = .ok ins → ins.looksOutside = false := by
    intro k before step ins done
    have executed : m.executed schedule k = some ins := by
      simp only [executed, step, done, Except.toOption]
    simpa [executed] using inward k before
  have cores : ∀ k ≤ n, (m'.after schedule' k).core = (m.after schedule k).core := by
    intro k
    induction k with
    | zero => exact fun _ => same
    | succ k ih =>
      intro before
      exact perform_core (ih (by omega)) (alike k before) (inward' k before)
  refine ⟨cores, ?_⟩
  intro k before step
  have inside := alike k before
  rw [step] at inside
  refine ⟨Operation.eq_of_inside inside, (step_core (cores k (by omega)) ?_).2⟩
  intro ins done looks
  rw [inward' k before step ins done] at looks
  cases looks

/-- A program that draws a sprite and writes a return where it goes on. -/
def rewriting : List Rat :=
  [0x60, 0x00, 0x61, 0xee, 0xa2, 0x0a, 0xf1, 0x55, 0xd0, 0x15, 0x00, 0x00]

/-- That program on a new machine. -/
def plainRewriting : Machine := ((create 0 (RandomStream.cycle [])).loadRom rewriting).1

/-- The same with a delay, other random bytes and another clock. -/
def delayedRewriting : Machine :=
  ((create (-70) (RandomStream.cycle [7])).loadRom rewriting).1.setTimer 60 (-70)

/-- Something else than a step, and then steps so many milliseconds apart. -/
def thenSteps (first : Operation) (apart : Rat) : Schedule
  | 0 => (first, 0)
  | k + 1 => (.step, apart * k)

/-- A frame is shown of the one machine and a key is pressed on the other.  Both run to the
return that they have written and fail there, with the same picture. -/
theorem outside_enters_by_looking_rewriting :
    let after := plainRewriting.after (thenSteps .flush 3)
    let after' := delayedRewriting.after (thenSteps (.press 5) 8)
    (after' 6).latch.key = some 5 ∧ (after 6).latch.key = none ∧
      (after' 6).timer.value = 60 ∧ (after 6).timer.value = 0 ∧
      (after' 6).core = (after 6).core ∧
      (after' 6).fault? (thenSteps (.press 5) 8 6).2 = some (.stackUnderflow 0x20a) := by
  intro after after'
  have alike : ∀ k < 7, (thenSteps (.press 5) 8 k).1.inside? =
      (thenSteps .flush 3 k).1.inside? := by
    rintro (_ | k) _ <;> rfl
  have inward : ∀ k < 7, (plainRewriting.executed (thenSteps .flush 3) k).any
      Instruction.looksOutside = false := by
    decide +kernel
  have fails : (after 6).fault? (thenSteps .flush 3 6).2 = some (.stackUnderflow 0x20a) := by
    decide +kernel
  have same : delayedRewriting.core = plainRewriting.core := rfl
  obtain ⟨cores, steps⟩ := outside_enters_by_looking same alike inward
  have outside : (after' 6).latch.key = some 5 ∧ (after 6).latch.key = none ∧
      (after' 6).timer.value = 60 ∧ (after 6).timer.value = 0 := by
    decide +kernel
  obtain ⟨key, key', delay, delay'⟩ := outside
  refine ⟨key, key', delay, delay', cores 6 (by decide), ?_⟩
  rw [← fails, fault?, fault?, (steps 6 (by decide) rfl).2]

end Machine

end Chip8
