/-
# Chip8.Proofs.ReturnStack -- calls and returns match

`executed` is the instruction that an operation of a schedule executes: the one that a
successful step answers, and none for anything else.  An operation moves the return stack
in one of three ways (`stack_cases`): a call pushes the place behind it, a return pops and
goes on at what it popped, and everything else leaves the stack alone.

From this, by induction on the operations done:

* `depth_after`: the depth counts calls less returns;
* `suffix_after`: what is on the stack below a call stays there until the depth is back, so
  what brings it back is the return of that call (`return_of_depth_back`).

`calls_and_returns_match` is the statement about whole runs.  Its runs may hold any
operations between the steps, failing steps included, so a run of successful steps is the
special case in which every operation executes an instruction.
-/
import Chip8.Proofs.History

set_option autoImplicit false

namespace Chip8

namespace Instruction

def isCall : Instruction → Bool
  | .call _ => true
  | _ => false

def isRet : Instruction → Bool
  | .ret => true
  | _ => false

end Instruction

namespace Machine

/-- The instruction that operation `k` of a schedule executes, if it executes one. -/
def executed (m : Machine) (schedule : Schedule) (k : Nat) : Option Instruction :=
  match (schedule k).1 with
  | .step => ((m.after schedule k).step (schedule k).2).2.toOption
  | _ => none

/-- How many of the first `n` operations of a schedule execute a call. -/
def calls (m : Machine) (schedule : Schedule) (n : Nat) : Nat :=
  (List.range n).countP fun k => (m.executed schedule k).any Instruction.isCall

/-- How many of the first `n` operations of a schedule execute a return. -/
def returns (m : Machine) (schedule : Schedule) (n : Nat) : Nat :=
  (List.range n).countP fun k => (m.executed schedule k).any Instruction.isRet

variable {m : Machine} {schedule : Schedule} {k n : Nat}

/-! ## One operation -/

theorem executed_eq_some_iff {ins : Instruction} :
    m.executed schedule k = some ins ↔
      (schedule k).1 = .step ∧
        (m.after schedule k).step (schedule k).2 = (m.after schedule (k + 1), .ok ins) := by
  unfold executed
  rw [after]
  cases operation : (schedule k).1 with
  | step =>
    rcases tried : (m.after schedule k).step (schedule k).2 with ⟨left, fault | found⟩
    · simp [perform, tried, Except.toOption]
    · simp [perform, tried, Except.toOption]
  | _ => simp

/-- An operation that executes nothing leaves the return stack alone. -/
theorem stack_of_executed_none (idle : m.executed schedule k = none) :
    (m.after schedule (k + 1)).stack = (m.after schedule k).stack := by
  by_cases step : (schedule k).1 = .step
  · rcases tried : (m.after schedule k).step (schedule k).2 with ⟨left, fault | ins⟩
    · rw [after, step, perform, tried]
      exact (step_error_frame tried).2.2.1
    · have done : m.executed schedule k = some ins := by
        rw [executed_eq_some_iff, after, step, perform, tried]
        exact ⟨rfl, rfl⟩
      rw [idle] at done
      cases done
  · exact (perform_frame _ _ step).2.2

/-- How an operation moves the return stack. -/
theorem stack_cases (m : Machine) (schedule : Schedule) (k : Nat) :
    (∃ target, m.executed schedule k = some (.call target) ∧
      (m.after schedule (k + 1)).stack =
        ((m.after schedule k).pc + 2) :: (m.after schedule k).stack) ∨
    (∃ top, m.executed schedule k = some .ret ∧
      (m.after schedule k).stack = top :: (m.after schedule (k + 1)).stack ∧
      (m.after schedule (k + 1)).pc = (wrapWord top : Rat)) ∨
    ((m.executed schedule k).any Instruction.isCall = false ∧
      (m.executed schedule k).any Instruction.isRet = false ∧
      (m.after schedule (k + 1)).stack = (m.after schedule k).stack) := by
  cases done : m.executed schedule k with
  | none => exact Or.inr (Or.inr ⟨rfl, rfl, stack_of_executed_none done⟩)
  | some ins =>
    have ok := (executed_eq_some_iff.mp done).2
    have moved := step_stack ok
    cases ins with
    | call target => exact Or.inl ⟨target, rfl, moved⟩
    | ret =>
      obtain ⟨top, rest, entries⟩ := step_ret_nonempty ok
      have tail : (m.after schedule (k + 1)).stack = (m.after schedule k).stack.tail := moved
      rw [entries, List.tail_cons] at tail
      have place := step_pc ok
      rw [nextPc, entries, List.headD_cons] at place
      exact Or.inr (Or.inl ⟨top, rfl, by rw [entries, tail], place⟩)
    | _ => exact Or.inr (Or.inr ⟨rfl, rfl, moved⟩)

/-! ## Depth -/

theorem calls_succ :
    m.calls schedule (n + 1) =
      m.calls schedule n + if (m.executed schedule n).any Instruction.isCall then 1 else 0 := by
  rw [calls, List.range_succ, List.countP_append, List.countP_singleton]
  rfl

theorem returns_succ :
    m.returns schedule (n + 1) =
      m.returns schedule n + if (m.executed schedule n).any Instruction.isRet then 1 else 0 := by
  rw [returns, List.range_succ, List.countP_append, List.countP_singleton]
  rfl

/-- The depth of the return stack counts the calls less the returns. -/
theorem depth_after (m : Machine) (schedule : Schedule) (n : Nat) :
    (m.after schedule n).stack.length + m.returns schedule n =
      m.stack.length + m.calls schedule n := by
  induction n with
  | zero => rfl
  | succ n ih =>
    rw [calls_succ, returns_succ]
    rcases stack_cases m schedule n with ⟨target, done, pushed⟩ | ⟨top, done, popped, -⟩ |
      ⟨notCall, notRet, same⟩
    · rw [done, pushed, List.length_cons]
      simp only [Option.any_some, Instruction.isCall, Instruction.isRet, Bool.false_eq_true,
        if_true, if_false]
      omega
    · rw [popped, List.length_cons] at ih
      rw [done]
      simp only [Option.any_some, Instruction.isCall, Instruction.isRet, Bool.false_eq_true,
        if_true, if_false]
      omega
    · rw [notCall, notRet, same]
      simpa using ih

/-! ## What lies below -/

/-- What is on the stack after operation `k` stays below everything until an operation
leaves the stack shallower than it. -/
theorem suffix_after {below : List Rat} {entry : Rat}
    (pushed : (m.after schedule (k + 1)).stack = entry :: below) {j : Nat} (later : k < j)
    (deeper : ∀ l, k < l → l < j → (m.after schedule (l + 1)).stack.length ≠ below.length) :
    (entry :: below) <:+ (m.after schedule j).stack := by
  induction later with
  | refl => exact pushed ▸ List.suffix_rfl
  | @step j later ih =>
    have before := ih fun l after_ until_ => deeper l after_ (Nat.lt_succ_of_lt until_)
    rcases stack_cases m schedule j with ⟨target, -, pushed⟩ | ⟨top, -, popped, -⟩ | ⟨-, -, same⟩
    · rw [pushed]
      exact before.trans (List.suffix_cons _ _)
    · rw [popped] at before
      rcases List.suffix_cons_iff.mp before with whole | inside
      · -- the entry itself is popped, so the depth is back
        have back : (m.after schedule (j + 1)).stack = below := (List.cons.inj whole).2.symm
        exact absurd (by rw [back]) (deeper j later (Nat.lt_succ_self j))
      · exact inside
    · rw [same]
      exact before

/-! ## Matching -/

/-- The first operation that brings the depth back to what it was before a call is a return,
and goes on behind that call with the stack as it was. -/
theorem return_of_depth_back {target : Fin 4096}
    (called : m.executed schedule k = some (.call target)) {j : Nat} (later : k < j)
    (back : (m.after schedule (j + 1)).stack.length = (m.after schedule k).stack.length)
    (deeper : ∀ l, k < l → l < j →
      (m.after schedule (l + 1)).stack.length ≠ (m.after schedule k).stack.length) :
    m.executed schedule j = some .ret ∧
      (m.after schedule (j + 1)).pc = (m.after schedule k).pc + 2 ∧
      (m.after schedule (j + 1)).stack = (m.after schedule k).stack := by
  have ok := (executed_eq_some_iff.mp called).2
  obtain ⟨p, atPc, inside, -⟩ := step_decoded ok
  have pushed := step_stack ok
  have below := suffix_after pushed later deeper
  rcases stack_cases m schedule j with ⟨_, -, deep⟩ | ⟨top, returned, popped, place⟩ |
    ⟨-, -, same⟩
  · -- the entry of the call is still there, and one more
    have longer := below.length_le
    rw [deep, List.length_cons] at back
    rw [List.length_cons] at longer
    omega
  · rw [popped] at below
    have whole : (m.after schedule k).pc + 2 = top ∧
        (m.after schedule k).stack = (m.after schedule (j + 1)).stack :=
      List.cons.inj (below.eq_of_length (by rw [List.length_cons, List.length_cons, back]))
    refine ⟨returned, ?_, whole.2.symm⟩
    rw [place, ← whole.1, atPc]
    exact wrapWord_of_lt (w := p + 2) (by omega) (Rat.natCast_add p 2).symm
  · have longer := below.length_le
    rw [same] at back
    rw [List.length_cons] at longer
    omega

/-- A return with nothing to return to underflows, and does nothing else. -/
theorem step_underflow {p word : Nat} (empty : m.stack = []) (fetched : m.fetch = .ok (p, word))
    (found : Instruction.decode word = some .ret) (now : Rat) :
    m.step now = ({ m with lastStepAt := now }, .error (.stackUnderflow p)) := by
  obtain ⟨atPc, inside, rfl⟩ := fetch_eq_ok_iff.mp fetched
  refine (step_eq_error_iff atPc).mpr (Or.inr (Or.inr ⟨inside, .ret, found, ?_⟩))
  simp only [execute, empty, atPc]

/-- **Calls and returns match.**  The depth counts them.  The first operation that brings the
depth back to what it was before a call is a return, and goes on behind that call with the
stack as it was.  And from an empty stack no run has more returns than calls, and one return
more underflows. -/
theorem calls_and_returns_match (m : Machine) (schedule : Schedule) :
    (∀ n, (m.after schedule n).stack.length + m.returns schedule n =
      m.stack.length + m.calls schedule n) ∧
    (∀ k target, m.executed schedule k = some (.call target) → ∀ j, k < j →
      (m.after schedule (j + 1)).stack.length = (m.after schedule k).stack.length →
      (∀ l, k < l → l < j →
        (m.after schedule (l + 1)).stack.length ≠ (m.after schedule k).stack.length) →
      m.executed schedule j = some .ret ∧
        (m.after schedule (j + 1)).pc = (m.after schedule k).pc + 2 ∧
        (m.after schedule (j + 1)).stack = (m.after schedule k).stack) ∧
    (m.stack = [] → ∀ n,
      m.returns schedule n ≤ m.calls schedule n ∧
        (m.returns schedule n = m.calls schedule n → ∀ now p word,
          (m.after schedule n).fetch = .ok (p, word) → Instruction.decode word = some .ret →
          (m.after schedule n).stack = [] ∧
            (m.after schedule n).step now =
              ({ m.after schedule n with lastStepAt := now }, .error (.stackUnderflow p)))) := by
  refine ⟨depth_after m schedule, ?_, ?_⟩
  · intro k target called j later back deeper
    exact return_of_depth_back called later back deeper
  · intro fresh n
    have depth := depth_after m schedule n
    rw [fresh, List.length_nil] at depth
    refine ⟨by omega, ?_⟩
    intro balanced now p word fetched found
    have empty : (m.after schedule n).stack = [] :=
      List.eq_nil_of_length_eq_zero (by omega)
    exact ⟨empty, step_underflow empty fetched found now⟩

/-- A call of a subroutine that returns at once, and a return too many. -/
def callAndReturn : Schedule
  | 0 => (.loadRom [0x22, 0x04, 0x00, 0xee, 0x00, 0xee], 0)
  | n + 1 => (.step, (n : Rat))

/-- The return matches the call, and the next one finds nothing. -/
theorem calls_and_returns_match_callAndReturn :
    (create 0 (RandomStream.cycle [])).executed callAndReturn 2 = some .ret ∧
      ((create 0 (RandomStream.cycle [])).after callAndReturn 3).stack =
        ((create 0 (RandomStream.cycle [])).after callAndReturn 1).stack ∧
      (((create 0 (RandomStream.cycle [])).after callAndReturn 3).step 4).2 =
        .error (.stackUnderflow ((0x202 : Nat) : Rat)) := by
  have called : (create 0 (RandomStream.cycle [])).executed callAndReturn 1 =
      some (.call 0x204) := by
    decide +kernel
  have back : ((create 0 (RandomStream.cycle [])).after callAndReturn 3).stack.length =
      ((create 0 (RandomStream.cycle [])).after callAndReturn 1).stack.length := by
    decide +kernel
  have balanced : (create 0 (RandomStream.cycle [])).returns callAndReturn 3 =
      (create 0 (RandomStream.cycle [])).calls callAndReturn 3 := by
    decide +kernel
  have atReturn : ((create 0 (RandomStream.cycle [])).after callAndReturn 3).pc =
      ((0x202 : Nat) : Rat) := by
    decide +kernel
  have found : Instruction.decode
      (((create 0 (RandomStream.cycle [])).after callAndReturn 3).memory.wordAt 0x202) =
        some .ret := by
    decide +kernel
  have fetched := fetch_eq_ok_iff.mpr ⟨atReturn, by decide, rfl⟩
  obtain ⟨-, matched, fresh⟩ :=
    calls_and_returns_match (create 0 (RandomStream.cycle [])) callAndReturn
  obtain ⟨returned, -, unwound⟩ :=
    matched 1 0x204 called 2 (by decide) back (fun l above below => by omega)
  obtain ⟨-, failed⟩ := (fresh rfl 3).2 balanced 4 _ _ fetched found
  exact ⟨returned, unwound, by rw [failed]⟩

end Machine

end Chip8
