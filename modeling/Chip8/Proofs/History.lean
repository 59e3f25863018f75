/-
# Chip8.Proofs.History -- everything that may be done to a machine

Whoever holds a machine may step it, press and release keys, set the timer, show the screen
and load programs, in any order, each operation at a clock reading of its own.  A
`Schedule` is an endless list of such operations and readings, and `after` is the machine
when some of them are done, the failing ones included.

What one operation keeps, every schedule keeps (`after_induction`).  Here that is
`InBounds`: the program counter never exceeds `0x10fe`, the index is a word, and return
addresses lie between `2` and `0x1000`.  The three need one another, since a return loads
the program counter from the stack and a call saves it there.

So no place that an instruction goes on at is ever wrapped, and a program counter that has
left memory never comes back (`program_counter_never_wraps`).
-/
import Chip8.Proofs.Footprint

set_option autoImplicit false

namespace Chip8

/-- Something done to a machine from outside. -/
inductive Operation where
  | step
  | press (key : Rat)
  | release
  | setTimer (value : Rat)
  | flush
  | loadRom (image : List Rat)

/-- Operations with the clock readings at which they are made. -/
abbrev Schedule := Nat → Operation × Rat

namespace Machine

/-- The machine after an operation at time `now`, whether or not it succeeds. -/
def perform (m : Machine) (now : Rat) : Operation → Machine
  | .step => (m.step now).1
  | .press key => m.press key now
  | .release =>
    match m.release now with
    | .ok released => released
    | .error _ => m
  | .setTimer value => m.setTimer value now
  | .flush => m.flushed now
  | .loadRom image => (m.loadRom image).1

/-- The machine after the first operations of a schedule. -/
def after (m : Machine) (schedule : Schedule) : Nat → Machine
  | 0 => m
  | n + 1 => (m.after schedule n).perform (schedule n).2 (schedule n).1

variable {m left : Machine} {now : Rat} {here : Nat} {ins : Instruction} {fault : Fault}

/-! ## One operation -/

/-- Only steps touch the program counter, the index and the return stack. -/
theorem perform_frame (m : Machine) (now : Rat) {op : Operation} (other : op ≠ .step) :
    (m.perform now op).pc = m.pc ∧ (m.perform now op).i = m.i ∧
      (m.perform now op).stack = m.stack := by
  cases op with
  | step => exact absurd rfl other
  | press key | setTimer value | flush | loadRom image => exact ⟨rfl, rfl, rfl⟩
  | release =>
    simp only [perform, release]
    cases m.latch.release now with
    | ok latch => exact ⟨rfl, rfl, rfl⟩
    | error held => exact ⟨rfl, rfl, rfl⟩

/-- What every operation keeps, every schedule keeps. -/
theorem after_induction {P : Machine → Prop} (start : P m)
    (kept : ∀ (m : Machine) (now : Rat) (op : Operation), P m → P (m.perform now op))
    (schedule : Schedule) (n : Nat) : P (m.after schedule n) := by
  induction n with
  | zero => exact start
  | succ n ih => exact kept _ _ _ ih

/-! ## Bounds -/

/-- Program counter, index and return addresses within the bounds that every machine keeps
on which only programs have set them. -/
structure InBounds (m : Machine) : Prop where
  pc : ∃ p : Nat, p ≤ 0x10fe ∧ m.pc = (p : Rat)
  index : ∃ i : Nat, i ≤ 0xffff ∧ m.i = (i : Rat)
  stack : ∀ entry ∈ m.stack, ∃ a : Nat, 2 ≤ a ∧ a ≤ 0x1000 ∧ entry = (a : Rat)

theorem inBounds_create (start : Rat) (random : RandomStream) :
    (create start random).InBounds where
  pc := ⟨programStart, by decide, rfl⟩
  index := ⟨0, by decide, rfl⟩
  stack := by
    intro entry impossible
    cases impossible

theorem execute_index_word (bounded : ∃ i : Nat, i ≤ 0xffff ∧ m.i = (i : Rat)) :
    ∃ i : Nat, i ≤ 0xffff ∧ (m.execute now here ins).1.i = (i : Rat) := by
  cases ins with
  | loadIndex target => exact ⟨target.val, by omega, rfl⟩
  | addIndex x =>
    have word := wrapWord_lt (Binary64.add m.i (byteValue (m.reg x)))
    exact ⟨_, Nat.le_of_lt_succ word, rfl⟩
  | glyphIndex x =>
    have digit := (m.reg x).toNat_lt
    refine ⟨(m.reg x).toNat * Font.rowsPerGlyph, ?_, rfl⟩
    rw [Font.rowsPerGlyph]
    omega
  | _ =>
    rw [execute_index m now here id]
    exact bounded

/-- The stack of a successful step stays in bounds: what is pushed is an address behind a
word that was fetched. -/
theorem nextStack_inBounds (bounded : m.InBounds) (atPc : m.pc = (here : Rat))
    (inside : here ≤ 0xffe) (ins : Instruction) :
    ∀ entry ∈ m.nextStack (m.pc + 2) ins, ∃ a : Nat, 2 ≤ a ∧ a ≤ 0x1000 ∧ entry = (a : Rat) := by
  intro entry member
  cases ins with
  | call target =>
    rcases List.mem_cons.mp member with rfl | below
    · exact ⟨here + 2, by omega, by omega, pc_add atPc 2⟩
    · exact bounded.stack entry below
  | ret => exact bounded.stack entry (List.mem_of_mem_tail member)
  | _ => exact bounded.stack entry member

/-- A step in bounds goes on exactly where its instruction says. -/
theorem InBounds.step_pc_eq (bounded : m.InBounds) (ok : m.step now = (left, .ok ins)) :
    left.pc = m.nextPc ins ∧ ∃ p : Nat, p ≤ 0x10fe ∧ left.pc = (p : Rat) := by
  by_cases ret : ins = .ret
  · subst ret
    obtain ⟨top, rest, entries⟩ := step_ret_nonempty ok
    obtain ⟨a, -, small, rfl⟩ := bounded.stack top (by simp [entries])
    have popped : m.nextPc .ret = (a : Rat) := by
      rw [nextPc, entries, List.headD_cons]
    have same : left.pc = (a : Rat) := by
      rw [step_pc ok, popped, wrapWord_of_lt (by omega) rfl]
    exact ⟨same.trans popped.symm, a, by omega, same⟩
  · obtain ⟨p, atPc, inside, -⟩ := step_decoded ok
    obtain ⟨n, small, place⟩ := nextPc_of_ne_ret atPc inside ret
    have same := step_pc_of_ne_ret ok ret
    exact ⟨same, n, small, same.trans place⟩

theorem InBounds.step (bounded : m.InBounds) (now : Rat) : (m.step now).1.InBounds := by
  rcases tried : m.step now with ⟨left, fault | ins⟩
  · obtain ⟨pc, index, stack, -⟩ := step_error_frame tried
    exact ⟨pc ▸ bounded.pc, index ▸ bounded.index, stack ▸ bounded.stack⟩
  · obtain ⟨p, atPc, inside, -⟩ := step_decoded tried
    refine ⟨(bounded.step_pc_eq tried).2, ?_, ?_⟩
    · obtain ⟨here, next, -, -, -, -, rfl⟩ := step_eq_ok_iff.mp tried
      exact execute_index_word (m := { m with lastStepAt := now }) bounded.index
    · rw [step_stack tried]
      exact nextStack_inBounds bounded atPc inside ins

theorem InBounds.perform (bounded : m.InBounds) (now : Rat) (op : Operation) :
    (m.perform now op).InBounds := by
  by_cases step : op = .step
  · subst step
    exact bounded.step now
  · obtain ⟨pc, index, stack⟩ := perform_frame m now step
    exact ⟨pc ▸ bounded.pc, index ▸ bounded.index, stack ▸ bounded.stack⟩

/-! ## Outside memory -/

/-- Outside memory every step fails for want of a word, and does nothing else. -/
theorem step_outside {p : Nat} (atPc : m.pc = (p : Rat)) (outside : 0xfff ≤ p) (now : Rat) :
    m.step now =
      ({ m with lastStepAt := now }, .error (.memoryAccess ((max p 0x1000 : Nat) : Rat))) :=
  (step_eq_error_iff atPc).mpr (Or.inl ⟨outside, rfl, rfl⟩)

/-- A program counter that has left memory stays where it is. -/
theorem after_pc_outside {p : Nat} (outside : 0xfff ≤ p) (schedule : Schedule) {n k : Nat}
    (later : n ≤ k) (atPc : (m.after schedule n).pc = (p : Rat)) :
    (m.after schedule k).pc = (p : Rat) := by
  induction later with
  | refl => exact atPc
  | @step k _ ih =>
    by_cases step : (schedule k).1 = .step
    · rw [after, step, perform, step_outside ih outside]
      exact ih
    · rw [after, (perform_frame _ _ step).1]
      exact ih

/-- **The program counter never wraps.**  From a new machine, whatever is done to it and
whenever, the bounds hold; no place that an instruction goes on at is changed by wrapping;
and from the moment the program counter leaves memory, it stays, and every step fails for
want of a word and changes nothing else. -/
theorem program_counter_never_wraps (start : Rat) (random : RandomStream) (schedule : Schedule)
    (n : Nat) :
    ((create start random).after schedule n).InBounds ∧
      (∀ now left ins, ((create start random).after schedule n).step now = (left, .ok ins) →
        left.pc = ((create start random).after schedule n).nextPc ins) ∧
      (∀ p : Nat, 0xfff ≤ p → ((create start random).after schedule n).pc = (p : Rat) →
        ∀ k, n ≤ k →
          ((create start random).after schedule k).pc = (p : Rat) ∧
            ∀ now, ((create start random).after schedule k).step now =
              ({ (create start random).after schedule k with lastStepAt := now },
                .error (.memoryAccess ((max p 0x1000 : Nat) : Rat)))) := by
  have bounded : ∀ k, ((create start random).after schedule k).InBounds :=
    after_induction (inBounds_create start random) (fun _ now op kept => kept.perform now op)
      schedule
  refine ⟨bounded n, ?_, ?_⟩
  · intro now left ins ok
    exact ((bounded n).step_pc_eq ok).1
  · intro p outside atPc k later
    have stays := after_pc_outside outside schedule later atPc
    exact ⟨stays, step_outside stays outside⟩

/-- A program that jumps to the last byte of memory, and goes on trying. -/
def jumpToTheEnd : Schedule
  | 0 => (.loadRom [0x1f, 0xff], 0)
  | n + 1 => (.step, (n : Rat))

/-- The hundredth attempt fails as the first does. -/
theorem program_counter_never_wraps_jumpToTheEnd :
    ((create 0 (RandomStream.cycle [])).after jumpToTheEnd 100).step 7 =
      ({ (create 0 (RandomStream.cycle [])).after jumpToTheEnd 100 with lastStepAt := 7 },
        .error (.memoryAccess 4096)) := by
  have gone : ((create 0 (RandomStream.cycle [])).after jumpToTheEnd 2).pc =
      ((0xfff : Nat) : Rat) := by
    decide +kernel
  exact ((program_counter_never_wraps 0 (RandomStream.cycle []) jumpToTheEnd 2).2.2 0xfff
    (Nat.le_refl _) gone 100 (by decide)).2 7

end Machine

end Chip8
