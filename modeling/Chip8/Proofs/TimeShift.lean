/-
# Chip8.Proofs.TimeShift -- only time differences matter

A machine remembers four readings of the clock, and compares each with a later reading by
their difference.  So a machine that remembers other readings behaves the same at a clock
that is as far off (`Machine.step_shifted`), and so does the host around it, if the presses
of its script are shifted along (`Host.poll_shifted`).

The difference of two finite readings is rounded once, and is the same after a shift
(`Binary64.sub?_shifted`).  Sums are not: a clock moves by a millisecond, and the end of a
run is worked out, on whole readings of at most `2 ^ 53` in size (`Binary64.Exact`).  There
they are exact, so runs commute with the shift (`Host.runUntil_shifted`).

`only_differences_matter` says so of a new machine and any sequence of runs.
-/
import Chip8.Proofs.Core
import Chip8.Proofs.ScriptedKeys

set_option autoImplicit false

namespace Chip8

/-! ## Readings -/

namespace Binary64

/-- A reading that is finite, and stays so when it is shifted. -/
def Shiftable (shift time : Rat) : Prop :=
  beyondRange time = false ∧ beyondRange (time + shift) = false

/-- **Differences are the same after a shift.** -/
theorem sub?_shifted {shift now since : Rat} (finite : Shiftable shift now)
    (finite' : Shiftable shift since) : sub? (now + shift) (since + shift) = sub? now since := by
  rw [sub?, sub?, finite.1, finite.2, finite'.1, finite'.2, add_sub_add_right_eq_sub]
  rfl

/-- A whole reading of at most `2 ^ 53` in size. -/
def Exact (time : Rat) : Prop :=
  ∃ n : Int, time = n ∧ -9007199254740992 ≤ n ∧ n ≤ 9007199254740992

/-- Exact readings are finite. -/
theorem Exact.shiftable {shift time : Rat} (here : Exact time) (there : Exact (time + shift)) :
    Shiftable shift time := by
  obtain ⟨n, same, low, high⟩ := here
  obtain ⟨k, same', low', high'⟩ := there
  refine ⟨?_, ?_⟩
  · rw [same]
    exact beyondRange_exact low high
  · rw [same']
    exact beyondRange_exact low' high'

/-- From one exact reading to another the clock moves as it should. -/
theorem add_of_exact {time ms : Rat} (here : Exact time) (there : Exact (time + ms)) :
    add time ms = time + ms := by
  obtain ⟨n, rfl, low, high⟩ := here
  obtain ⟨k, same, low', high'⟩ := there
  obtain rfl : ms = ((k - n : Int) : Rat) := by
    push_cast
    linarith
  have inside := two_mul_exactLimit_lt_rangeEnd
  rw [exactLimit] at inside
  rw [add_intCast (by omega) (by omega) (by rw [exactLimit]; omega)]
  push_cast
  ring

/-- There is room for a millisecond between exact readings. -/
theorem Exact.succ {time stop : Rat} (here : Exact time) (there : Exact stop)
    (before : time < stop) : Exact (time + 1) := by
  obtain ⟨n, rfl, low, high⟩ := here
  obtain ⟨k, rfl, low', high'⟩ := there
  have less : n < k := by exact_mod_cast before
  exact ⟨n + 1, by push_cast; ring, by omega, by omega⟩

end Binary64

open Binary64 (Shiftable Exact)

/-! ## Devices -/

variable {shift now : Rat}

/-- The press, made later. -/
def Press.shifted (shift : Rat) (p : Press) : Press := { p with atMs := p.atMs + shift }

def Timer.shifted (shift : Rat) (t : Timer) : Timer := { t with setAt := t.setAt + shift }

def Latch.shifted (shift : Rat) (l : Latch) : Latch := { l with pressedAt := l.pressedAt + shift }

def Screen.shifted (shift : Rat) (s : Screen) : Screen :=
  { s with lastFlushAt := s.lastFlushAt + shift }

def PressScript.shifted (shift : Rat) (s : PressScript) : PressScript :=
  { pending := s.pending.map (Press.shifted shift) }

theorem Timer.read_shifted {t : Timer} (finite : Shiftable shift now)
    (finite' : Shiftable shift t.setAt) : (t.shifted shift).read (now + shift) = t.read now := by
  simp only [read, remainingDelay, elapsed?, shifted, Binary64.sub?_shifted finite finite']

theorem Latch.answered_shifted {l : Latch} (finite : Shiftable shift now)
    (finite' : Shiftable shift l.pressedAt) (key : Option Rat) :
    (l.shifted shift).answered key (now + shift) = (l.answered key now).shifted shift := by
  cases key with
  | some key => rfl
  | none =>
    have gate : (l.shifted shift).canRelease (now + shift) = l.canRelease now := by
      rw [canRelease, canRelease, shifted, Binary64.sub?_shifted finite finite']
    simp only [answered, gate]
    split <;> rfl

/-- Whether a press is due depends on how long it is until then. -/
theorem PressScript.poll_shifted (s : PressScript) :
    (s.shifted shift).poll (now + shift) = ((s.poll now).1, (s.poll now).2.shifted shift) := by
  rcases s with ⟨_ | ⟨p, rest⟩⟩
  · rfl
  · have early : now + shift < p.atMs + shift ↔ now < p.atMs := add_lt_add_iff_right shift
    simp only [poll, shifted, List.map_cons, Press.shifted, early]
    split <;> rfl

/-- Presses keep their order. -/
theorem PressScript.ofPresses_shifted (presses : List Press) :
    PressScript.ofPresses (presses.map (Press.shifted shift)) =
      (PressScript.ofPresses presses).shifted shift := by
  rw [ofPresses, ofPresses, shifted, Press.sorted, Press.sorted]
  congr 1
  symm
  apply List.map_mergeSort
  intro p _ q _
  rw [decide_eq_decide, Press.shifted, Press.shifted, add_le_add_iff_right]

/-! ## Machines -/

namespace Machine

/-- What is true of every reading of the clock that a machine remembers. -/
structure Remembers (m : Machine) (P : Rat → Prop) : Prop where
  step : P m.lastStepAt
  flush : P m.screen.lastFlushAt
  setting : P m.timer.setAt
  press : P m.latch.pressedAt

/-- The machine at another time: all readings that it remembers are shifted. -/
def shifted (shift : Rat) (m : Machine) : Machine :=
  { m with
    screen := m.screen.shifted shift
    timer := m.timer.shifted shift
    latch := m.latch.shifted shift
    lastStepAt := m.lastStepAt + shift }

section Step

variable {m : Machine} (finite : Shiftable shift now) (known : m.Remembers (Shiftable shift))

include finite known

theorem outlook_shifted : (m.shifted shift).outlook (now + shift) = m.outlook now := by
  simp only [outlook, shifted, Timer.read_shifted finite known.setting, Latch.shifted]

theorem execute_shifted (here : Nat) (ins : Instruction) :
    (m.shifted shift).execute (now + shift) here ins =
      ((m.execute now here ins).1.shifted shift, (m.execute now here ins).2) := by
  have same : (m.shifted shift).core = m.core := rfl
  obtain ⟨core, answer⟩ :=
    execute_core same now (now + shift) here fun _ => outlook_shifted finite known
  refine Prod.ext (ext_core core ?_ ?_ ?_ ?_ ?_) answer
  · show _ = (m.execute now here ins).1.timer.shifted shift
    rw [execute_nextTimer, execute_nextTimer]
    cases ins <;> rfl
  · show _ = (m.execute now here ins).1.latch.shifted shift
    rw [execute_latch, execute_latch]
    rfl
  · show _ = (m.execute now here ins).1.random
    rw [execute_random, execute_random]
    rfl
  · show _ = (m.execute now here ins).1.lastStepAt + shift
    rw [execute_lastStepAt, execute_lastStepAt]
    rfl
  · show _ = (m.execute now here ins).1.screen.lastFlushAt + shift
    rw [execute_lastFlushAt, execute_lastFlushAt]
    rfl

/-- **A step looks at differences of readings only.** -/
theorem step_shifted :
    (m.shifted shift).step (now + shift) = ((m.step now).1.shifted shift, (m.step now).2) := by
  have begun : ({ m with lastStepAt := now } : Machine).Remembers (Shiftable shift) :=
    { known with step := finite }
  obtain ⟨left, answer⟩ :
      ((m.shifted shift).step (now + shift)).1 = (m.step now).1.shifted shift ∧ _ := by
    apply step_relates fun a a' => a' = a.shifted shift
    · rfl
    · rfl
    · rfl
    · intro here word ins _ _
      exact Prod.mk.inj (execute_shifted finite begun here ins)
    · rintro a _ pc rfl
      rfl
  exact Prod.ext left answer

end Step

/-! What is true of a reading is true of what a machine remembers from then on. -/

section Remembering

variable {m : Machine} {P : Rat → Prop} (known : m.Remembers P) (this : P now)

include known this

theorem Remembers.after_step : (m.step now).1.Remembers P where
  step := by
    rw [step_fst_lastStepAt]
    exact this
  flush := by
    rw [step_fst_lastFlushAt]
    exact known.flush
  setting := by
    rcases step_fst_cases m now with left | ⟨place, ins, pc, -, left⟩
    · rw [left]
      exact known.setting
    · rw [left, execute_nextTimer]
      cases ins with
      | setTimer x => exact this
      | _ => exact known.setting
  press := by
    rw [step_fst_latch]
    exact known.press

theorem Remembers.after_answer (key : Option Rat) :
    ({ m with latch := m.latch.answered key now } : Machine).Remembers P where
  step := known.step
  flush := known.flush
  setting := known.setting
  press := by
    cases key with
    | some key => exact this
    | none =>
      simp only [Latch.answered]
      split <;> exact known.press

theorem Remembers.after_flush : (m.flushed now).Remembers P :=
  ⟨known.step, this, known.setting, known.press⟩

end Remembering

end Machine

/-! ## Hosts -/

namespace Host

/-- The host at another time, its presses with it. -/
def shifted (shift : Rat) (h : Host PressScript) : Host PressScript :=
  { h with
    machine := h.machine.shifted shift
    clock := h.clock + shift
    input := h.input.shifted shift }

/-- A host that can be shifted: its clock is exact before and after, and the readings that
its machine remembers are finite. -/
structure Movable (shift : Rat) (h : Host PressScript) : Prop where
  here : Exact h.clock
  there : Exact (h.clock + shift)
  known : h.machine.Remembers (Shiftable shift)

section Round

variable {h : Host PressScript}

theorem Movable.finite (movable : Movable shift h) : Shiftable shift h.clock :=
  movable.here.shiftable movable.there

/-! A host that can be shifted can be shifted after each phase of a round. -/

theorem Movable.answered (movable : Movable shift h) : Movable shift h.answered :=
  ⟨movable.here, movable.there, movable.known.after_answer movable.finite _⟩

theorem Movable.stepPhase (movable : Movable shift h) : Movable shift h.stepPhase.1 := by
  have clock : h.stepPhase.1.clock = h.clock := (stepPhase_frame h).2.1
  refine ⟨clock ▸ movable.here, clock ▸ movable.there, ?_⟩
  rw [stepPhase_machine]
  split
  · exact movable.known.after_step movable.finite
  · exact movable.known

theorem Movable.flushPhase (movable : Movable shift h) : Movable shift h.flushPhase := by
  have clock : h.flushPhase.clock = h.clock := (flushPhase_frame h).2.1
  refine ⟨clock ▸ movable.here, clock ▸ movable.there, ?_⟩
  rw [flushPhase_machine]
  split
  · exact movable.known.after_flush movable.finite
  · exact movable.known

theorem Movable.poll (movable : Movable shift h) : Movable shift h.poll.1 := by
  rcases h.poll_fst_cases with left | left
  · rw [left]
    exact movable.answered.stepPhase
  · rw [left]
    exact movable.answered.stepPhase.flushPhase

/-! Each phase does the same at another time. -/

theorem answered_shifted (movable : Movable shift h) :
    (h.shifted shift).answered = h.answered.shifted shift := by
  simp only [Host.answered, shifted, InputSource.ask, PressScript.poll_shifted, Machine.shifted,
    Latch.answered_shifted movable.finite movable.known.press]

theorem stepPhase_shifted (movable : Movable shift h) :
    (h.shifted shift).stepPhase = (h.stepPhase.1.shifted shift, h.stepPhase.2) := by
  apply stepPhase_map h (f := shifted shift) (g := Machine.shifted shift)
  · simp only [stepDue, halted, shifted, Machine.canStep, Machine.shifted,
      Binary64.sub?_shifted movable.finite movable.known.step]
  · exact Machine.step_shifted movable.finite movable.known
  · intro left ins
    rfl
  · intro left fault
    simp only [Host.failed, shifted]
    cases h.settings.mode <;> rfl

theorem flushPhase_shifted (movable : Movable shift h) :
    (h.shifted shift).flushPhase = h.flushPhase.shifted shift := by
  apply flushPhase_map h (f := shifted shift)
  · simp only [flushDue, Machine.canFlush, Screen.canFlush, shifted, Machine.shifted,
      Screen.shifted, Binary64.sub?_shifted movable.finite movable.known.flush]
  · rfl

/-- **A round does the same at another time.** -/
theorem poll_shifted (movable : Movable shift h) :
    (h.shifted shift).poll = (h.poll.1.shifted shift, h.poll.2) :=
  poll_map (answered_shifted movable) (stepPhase_shifted movable.answered)
    (flushPhase_shifted movable.answered.stepPhase)

/-- A run lets milliseconds pass between exact readings, and does the same at another
time. -/
theorem runUntil_shifted (movable : Movable shift h) {stop : Rat} (ends : Exact stop)
    (ends' : Exact (stop + shift)) (limit : Nat) :
    runUntil (stop + shift) limit (h.shifted shift) =
        ((runUntil stop limit h).1.shifted shift, (runUntil stop limit h).2) ∧
      Movable shift (runUntil stop limit h).1 := by
  refine runUntil_map ?_ ?_ movable limit
  · intro g _
    simp only [running, halted, shifted, add_lt_add_iff_right]
  · intro g movable goesOn
    have before : g.clock < stop := by
      simp only [running, Bool.and_eq_true, decide_eq_true_eq] at goesOn
      exact goesOn.1
    have next : Exact (g.clock + 1) := movable.here.succ ends before
    have next' : Exact (g.clock + shift + 1) :=
      movable.there.succ ends' (add_lt_add_of_lt_of_le before le_rfl)
    have order : g.clock + shift + 1 = g.clock + 1 + shift := by ring
    have passed : (g.advance 1).clock = g.clock + 1 := Binary64.add_of_exact movable.here next
    have passed' : (g.shifted shift).advance 1 = (g.advance 1).shifted shift := by
      simp only [advance, shifted, Binary64.add_of_exact movable.here next,
        Binary64.add_of_exact movable.there next', order]
    have ready : Movable shift (g.advance 1) := by
      refine ⟨passed ▸ next, ?_, movable.known⟩
      rw [passed, ← order]
      exact next'
    rw [passed']
    exact ⟨poll_shifted ready, ready.poll⟩

end Round

/-! ## Runs from a new machine -/

/-- A new host with a program loaded, and with presses to come. -/
def begun (settings : Settings) (random : RandomStream) (image : List Rat)
    (presses : List Press) (start : Rat) : Host PressScript :=
  ((create settings (Machine.create start random) start
    (PressScript.ofPresses presses)).loadRom image).1

theorem loadRom_shifted (h : Host PressScript) (image : List Rat) :
    ((h.shifted shift).loadRom image).1 = (h.loadRom image).1.shifted shift := by
  rcases loaded : h.machine.memory.loadProgram image with ⟨memory, _ | fault⟩ <;>
  · have loaded' : (h.shifted shift).machine.memory.loadProgram image = _ := loaded
    simp only [loadRom, Machine.loadRom, loaded, loaded']
    rfl

theorem begun_shifted (settings : Settings) (random : RandomStream) (image : List Rat)
    (presses : List Press) (start : Rat) :
    begun settings random image (presses.map (Press.shifted shift)) (start + shift) =
      (begun settings random image presses start).shifted shift := by
  rw [begun, begun, ← loadRom_shifted, PressScript.ofPresses_shifted]
  rfl

/-- Runs of simulated time, one after the other. -/
def runs (durations : Nat → Rat) (k : Nat) : Call := .runFor (durations k)

section Runs

variable {h : Host PressScript} {durations : Nat → Rat} {n : Nat}

/-- A run between exact readings does the same at another time. -/
theorem runUntil_add_shifted (movable : Movable shift h) {ms : Rat} (ends : Exact (h.clock + ms))
    (ends' : Exact (h.clock + ms + shift)) (limit : Nat) :
    runUntil (Binary64.add (h.shifted shift).clock ms) limit (h.shifted shift) =
        ((runUntil (Binary64.add h.clock ms) limit h).1.shifted shift,
          (runUntil (Binary64.add h.clock ms) limit h).2) ∧
      Movable shift (runUntil (Binary64.add h.clock ms) limit h).1 := by
  have order : h.clock + shift + ms = h.clock + ms + shift := by ring
  have late : Binary64.add (h.shifted shift).clock ms = h.clock + ms + shift := by
    rw [shifted, Binary64.add_of_exact movable.there (order ▸ ends'), order]
  rw [late, Binary64.add_of_exact movable.here ends]
  exact runUntil_shifted movable ends ends' limit

/-- So do runs of which each ends at an exact reading. -/
theorem called_shifted (movable : Movable shift h)
    (ends : ∀ k < n, Exact ((h.called (runs durations) k).clock + durations k) ∧
      Exact ((h.called (runs durations) k).clock + durations k + shift)) :
    (h.shifted shift).called (runs durations) n = (h.called (runs durations) n).shifted shift ∧
      Movable shift (h.called (runs durations) n) := by
  induction n with
  | zero => exact ⟨rfl, movable⟩
  | succ n ih =>
    obtain ⟨before, ready⟩ := ih fun k earlier => ends k (Nat.lt_succ_of_lt earlier)
    obtain ⟨here, there⟩ := ends n (Nat.lt_succ_self n)
    obtain ⟨run, next⟩ := runUntil_add_shifted ready here there roundLimit
    rw [called, called, before]
    exact ⟨congrArg Prod.fst run, next⟩

end Runs

/-- A new machine remembers the time at which it was made. -/
theorem movable_begun {start : Rat} (here : Exact start) (there : Exact (start + shift))
    (settings : Settings) (random : RandomStream) (image : List Rat) (presses : List Press) :
    Movable shift (begun settings random image presses start) := by
  have finite : Shiftable shift start := here.shiftable there
  have loaded : ((Machine.create start random).loadRom image).1.Remembers (Shiftable shift) :=
    ⟨finite, finite, finite, finite⟩
  obtain ⟨journal, left⟩ := loadRom_eq (create settings (Machine.create start random) start
    (PressScript.ofPresses presses)) image
  rw [begun, left]
  exact ⟨here, there, loaded⟩

/-- **Only time differences matter.**  A new machine with any program is run again and again,
from an exact reading of the clock to others.  The same machine made at another time, with
all presses of its script as far off, goes through the same states: after every round of
every run the hosts are the same, but that their readings of the clock are shifted, the
delay timer reads the same, and the same error escapes. -/
theorem only_differences_matter (settings : Settings) (random : RandomStream) (image : List Rat)
    (presses : List Press) {start shift : Rat} (begins : Exact start)
    (begins' : Exact (start + shift)) {durations : Nat → Rat} {n : Nat} :
    let h := begun settings random image presses start
    let h' := begun settings random image (presses.map (Press.shifted shift)) (start + shift)
    (∀ k < n, Exact ((h.called (runs durations) k).clock + durations k) ∧
      Exact ((h.called (runs durations) k).clock + durations k + shift)) →
    h'.called (runs durations) n = (h.called (runs durations) n).shifted shift ∧
      ∀ k < n, ∀ rounds,
        let left := h.called (runs durations) k
        let left' := h'.called (runs durations) k
        let run := runUntil (Binary64.add left.clock (durations k)) rounds left
        let run' := runUntil (Binary64.add left'.clock (durations k)) rounds left'
        run' = (run.1.shifted shift, run.2) ∧
          run'.1.machine.timer.read run'.1.clock = run.1.machine.timer.read run.1.clock := by
  intro h h' ends
  have movable : Movable shift h := movable_begun begins begins' settings random image presses
  have same : h' = h.shifted shift := begun_shifted settings random image presses start
  rw [same]
  refine ⟨(called_shifted movable ends).1, ?_⟩
  intro k before rounds left left' run run'
  obtain ⟨reached, ready⟩ := called_shifted movable fun j earlier => ends j (earlier.trans before)
  obtain ⟨made, kept⟩ := runUntil_add_shifted ready (ends k before).1 (ends k before).2 rounds
  have round : run' = (run.1.shifted shift, run.2) := by
    simp only [run', left', reached]
    exact made
  refine ⟨round, ?_⟩
  rw [round]
  exact Timer.read_shifted kept.finite kept.known.setting

/-- A program that starts the delay timer and goes on reading it. -/
def readingTimer : List Rat := [0x60, 0x05, 0xf0, 0x15, 0xf1, 0x07, 0x12, 0x04]

/-- A second earlier, two runs of thirty milliseconds come to the same reading of the timer
with the same key. -/
theorem only_differences_matter_readingTimer :
    let calls := runs fun _ => 30
    let h := begun watched (RandomStream.cycle []) readingTimer [{ key := 5, atMs := 1010 }] 1000
    let h' := begun watched (RandomStream.cycle []) readingTimer [{ key := 5, atMs := 10 }] 0
    h'.called calls 2 = (h.called calls 2).shifted (-1000) ∧
      (h.called calls 2).machine.reg 1 = 2 ∧ (h.called calls 2).machine.latch.key = some 5 ∧
      (h.called calls 2).executed = 20 := by
  intro calls h h'
  have begins : Exact 1000 := ⟨1000, rfl, by decide, by decide⟩
  have begins' : Exact (1000 + -1000) := ⟨0, by norm_num, by decide, by decide⟩
  have clocks : h.clock = 1000 ∧ (h.called calls 1).clock = 1030 := by decide +kernel
  have ends : ∀ k < 2, Exact ((h.called calls k).clock + 30) ∧
      Exact ((h.called calls k).clock + 30 + -1000) := by
    rintro (_ | _ | k) before
    · rw [called, clocks.1]
      exact ⟨⟨1030, by norm_num, by decide, by decide⟩, 30, by norm_num, by decide, by decide⟩
    · rw [clocks.2]
      exact ⟨⟨1060, by norm_num, by decide, by decide⟩, 60, by norm_num, by decide, by decide⟩
    · omega
  have shown : (h.called calls 2).machine.reg 1 = 2 ∧
      (h.called calls 2).machine.latch.key = some 5 ∧ (h.called calls 2).executed = 20 := by
    decide +kernel
  have earlier : begun watched (RandomStream.cycle []) readingTimer
      ([{ key := 5, atMs := 1010 }].map (Press.shifted (-1000))) (1000 + -1000) = h' := by
    have time : (1010 : Rat) + -1000 = 10 := by norm_num
    rw [List.map_singleton, Press.shifted, time, add_neg_cancel]
  refine ⟨?_, shown⟩
  rw [← earlier]
  exact (only_differences_matter watched (RandomStream.cycle []) readingTimer
    [{ key := 5, atMs := 1010 }] begins begins' ends).1

end Host

end Chip8
