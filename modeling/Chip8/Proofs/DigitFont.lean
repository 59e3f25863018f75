/-
# Chip8.Proofs.DigitFont -- the digit glyphs stay in memory

A new machine has the glyphs of the digits at the bottom of memory, below the start of programs.
No load comes there.  What may write there is the store of registers and the store of digits,
since both go where the index says: `Writes` tells which byte a step of the machine writes to a
place, if it does, and a step leaves every place with the byte written there or, without one, as
it was (`step_writes`, `step_keeps`).

Whoever holds the machine may operate on it, and whoever holds a host around it may move that:
`Action` is either, and only the steps made in an action write below the start of programs
(`act_memory`).  So a glyph is drawn as it was built in, for as long as no step has written to
one of its five bytes: `digit_font_survives`.
-/
import Chip8.Proofs.BareStepping
import Chip8.Proofs.GlyphLoading
import Chip8.Proofs.SavedRegisters
import Chip8.Proofs.SpriteDrawing

set_option autoImplicit false

namespace Chip8

/-! ## Glyphs -/

namespace Font

/-- The rows of the glyph of a digit. -/
def glyph (digit : Fin 16) : List UInt8 := glyphs.getD digit.val []

/-- The glyph of a digit starts at five times the digit. -/
theorem bytes_glyph : ∀ digit : Fin 16,
    ((List.range 5).map fun row => bytes.getD (digit.val * rowsPerGlyph + row) 0) = glyph digit := by
  decide +kernel

end Font

namespace Memory

/-- New memory holds the glyphs. -/
theorem get_fresh {place : Fin 4096} (low : place.val < Font.size) :
    fresh.get place = Font.bytes.getD place.val 0 := by
  rw [fresh, writeFrom_glyphs]
  exact get_overlay_glyphs empty low

/-- Where the five bytes of a glyph are as they were built in, they are its rows. -/
theorem span_glyph {m : Memory} {digit : Fin 16}
    (built : ∀ place : Fin 4096, digit.val * Font.rowsPerGlyph ≤ place.val →
      place.val < digit.val * Font.rowsPerGlyph + 5 → m.get place = Font.bytes.getD place.val 0) :
    m.span (digit.val * Font.rowsPerGlyph) 5 = Font.glyph digit := by
  have small : digit.val * Font.rowsPerGlyph + 5 ≤ 4096 := by
    rw [Font.rowsPerGlyph]
    omega
  rw [span_eq_map m small, ← Font.bytes_glyph]
  apply List.map_congr_left
  intro row listed
  have few : row < 5 := List.mem_range.mp listed
  rw [byteAt_eq_get m (by omega)]
  exact built _ (Nat.le_add_right _ _) (Nat.add_lt_add_left few _)

end Memory

namespace Machine

variable {m : Machine} {now : Rat} {place : Fin 4096} {byte : UInt8}

/-! ## Steps that write -/

/-- The step of a machine writes a byte to a place: at the program counter stands one of the two
instructions that store bytes, and the place is the one for this byte.  It does not matter
whether memory has room for the bytes behind it. -/
inductive Writes (m : Machine) (place : Fin 4096) : UInt8 → Prop where
  | digit (x : Register) (i k : Nat) (next : m.Upcoming (.storeDecimal x)) (atIndex : m.i = (i : Rat))
    (here : place.val = i + k) (few : k < 3) :
    Writes m place ((decimalDigits (m.reg x)).getD k 0)
  | register (x r : Register) (i : Nat) (next : m.Upcoming (.store x)) (atIndex : m.i = (i : Rat))
    (here : place.val = i + r.val) (listed : r ≤ x) : Writes m place (m.reg r)

/-- A machine that writes is about to store. -/
theorem Writes.stores (writes : m.Writes place byte) :
    ∃ ins, m.Upcoming ins ∧ 0 < ins.bytesStored ∧ ∃ i k : Nat, m.i = (i : Rat) ∧
      place.val = i + k ∧ k < ins.bytesStored ∧ (ins.stores m).getD k 0 = byte := by
  cases writes with
  | digit x i k next atIndex here few =>
    exact ⟨.storeDecimal x, next, Nat.succ_pos 2, i, k, atIndex, here, few, rfl⟩
  | register x r i next atIndex here listed =>
    have few : r.val < x.val + 1 := Nat.lt_succ_of_le listed
    refine ⟨.store x, next, Nat.succ_pos _, i, r.val, atIndex, here, few, ?_⟩
    have inside : r.val < (m.v.toList.take (x.val + 1)).length := by
      rwa [length_take_registers]
    show (m.v.toList.take (x.val + 1)).getD r.val 0 = m.reg r
    rw [List.getD_eq_getElem _ _ inside, List.getElem_take, Vector.getElem_toList]
    rfl

/-- **What a step writes is there after it**, also if it has failed half-way. -/
theorem step_writes (writes : m.Writes place byte) : (m.step now).1.memory.get place = byte := by
  obtain ⟨ins, ⟨here, atPc, inside, found⟩, some, i, k, atIndex, at', few, value⟩ := writes.stores
  have fetched : m.fetch = .ok (here, m.memory.wordAt here) :=
    fetch_eq_ok_iff.mpr ⟨atPc, inside, rfl⟩
  have left : (m.step now).1.memory = (m.memory.writeFrom m.i (ins.stores m)).1 := by
    have same : ins.stores { m with lastStepAt := now } = ins.stores m := by
      cases ins <;> rfl
    rw [step_of_some fetched found, execute_of_stores _ now here some, same]
    simp only [unlessFault]
    cases (m.memory.writeFrom m.i (ins.stores m)).2 <;> rfl
  have listed : k < (ins.stores m).length := by
    rw [Instruction.length_stores]
    exact few
  rw [left, atIndex, Memory.writeFrom_natCast, Memory.get_overlay, if_pos (by omega), at',
    Nat.add_sub_cancel_left, ← value, List.getD_eq_getElem _ _ listed,
    List.getD_eq_getElem _ _ listed]

/-- **A place that a step does not write to keeps its byte.** -/
theorem step_keeps (unwritten : ∀ byte, ¬ m.Writes place byte) :
    (m.step now).1.memory.get place = m.memory.get place := by
  apply step_fst_memory
  rintro ⟨ins, next, i, atIndex, low, high⟩
  have here : place.val = i + (place.val - i) := by omega
  cases ins with
  | storeDecimal x =>
    have few : place.val - i < 3 := by
      have : place.val < i + 3 := high
      omega
    exact unwritten _ (.digit x i _ next atIndex here few)
  | store x =>
    have few : place.val - i < x.val + 1 := by
      have : place.val < i + (x.val + 1) := high
      omega
    have small : place.val - i < 16 := by omega
    exact unwritten _ (.register x ⟨place.val - i, small⟩ i next atIndex here
      (Nat.le_of_lt_succ few))
  | _ => exact absurd high (Nat.not_lt_of_le low)

/-- Below the start of programs no operation writes but a step. -/
theorem perform_memory {op : Operation} (low : place.val < programStart)
    (unwritten : op = .step → ∀ byte, ¬ m.Writes place byte) :
    (m.perform now op).memory.get place = m.memory.get place := by
  by_cases step : op = .step
  · subst step
    exact step_keeps (unwritten rfl)
  · show (m.meet (.operation op now)).memory.get place = m.memory.get place
    apply meet_memory
    cases op with
    | step => exact absurd rfl step
    | loadRom image =>
      rintro ⟨high, -⟩
      exact absurd low (Nat.not_lt_of_le high)
    | press key | release | setTimer value | flush => exact id

/-! ## Drawing a digit -/

/-- A machine whose index points at a glyph that is as it was built in draws this glyph. -/
theorem step_draw_glyph {digit : Fin 16} {y z : Register} (atIndex :
      m.i = ((digit.val * Font.rowsPerGlyph : Nat) : Rat))
    (built : m.memory.span (digit.val * Font.rowsPerGlyph) 5 = Font.glyph digit)
    (next : m.Upcoming (.draw y z 5)) (now : Rat) :
    ∃ after, m.step now = (after, .ok (.draw y z 5)) ∧
      ∀ cell, after.screen.cells.get cell = (m.screen.cells.get cell ^^
        spriteBit (Font.glyph digit) (m.reg y).toNat (m.reg z).toNat cell) := by
  obtain ⟨here, atPc, inside, found⟩ := next
  have fits : m.HasRows (digit.val * Font.rowsPerGlyph) 5 := by
    refine Or.inr ⟨atIndex, ?_⟩
    show digit.val * 5 + 5 ≤ 0x1000
    omega
  refine ⟨_, step_eq_drawn now atPc inside found fits, ?_⟩
  intro cell
  rw [(draws_drawn fits now here y z).cell, ← spriteBit_span fits]
  exact congrArg (fun rows => m.screen.cells.get cell ^^
    spriteBit rows (m.reg y).toNat (m.reg z).toNat cell) built

/-- The index is pointed at the glyph of the digit in a register, and nothing else changes but
the program counter. -/
theorem step_glyphIndex {x : Register} (next : m.Upcoming (.glyphIndex x)) (now : Rat) :
    ∃ after, m.step now = (after, .ok (.glyphIndex x)) ∧
      after.core = { m.core with
        i := (((m.reg x).toNat * Font.rowsPerGlyph : Nat) : Rat), pc := after.pc } := by
  obtain ⟨here, atPc, inside, found⟩ := next
  exact ⟨_, step_eq_ok_iff.mpr ⟨here, here + 2, atPc, inside, found, rfl, rfl⟩, rfl⟩

end Machine

/-! ## Everything that may be done -/

namespace Host

variable {σ : Type} [InputSource σ]

/-- What may be done to a machine and the host around it: an operation on the machine itself,
at some reading of the clock, or a move of the host. -/
inductive Action where
  | operation (op : Operation) (now : Rat)
  | move (move : Move)

/-- The host after an action, whether or not that succeeds. -/
def act (h : Host σ) : Action → Host σ
  | .operation op now => { h with machine := h.machine.perform now op }
  | .move move => h.move move

/-- The host after the first of a sequence of actions. -/
def acted (h : Host σ) (actions : Nat → Action) : Nat → Host σ
  | 0 => h
  | n + 1 => (h.acted actions n).act (actions n)

/-- The machine that makes a step in an action, if one does: a round makes one when its
instruction is due. -/
def stepping? (h : Host σ) : Action → Option Machine
  | .operation .step _ => some h.machine
  | .move .poll => if h.answered.stepDue then some h.answered.machine else none
  | _ => none

/-- The step made in an action writes a byte to a place. -/
def Writes (h : Host σ) (action : Action) (place : Fin 4096) (byte : UInt8) : Prop :=
  ∃ m, h.stepping? action = some m ∧ m.Writes place byte

/-- No step in the first of a sequence of actions has written to a place. -/
def Unwritten (h : Host σ) (actions : Nat → Action) (n : Nat) (place : Fin 4096) : Prop :=
  ∀ k < n, ∀ byte, ¬ (h.acted actions k).Writes (actions k) place byte

section Memory

variable {h : Host σ} {action : Action} {place : Fin 4096} {byte : UInt8}

/-- A round leaves memory as its step does, if it makes one. -/
theorem poll_memory (h : Host σ) :
    h.poll.1.machine.memory =
      if h.answered.stepDue then (h.answered.machine.step h.answered.clock).1.memory
      else h.machine.memory := by
  obtain ⟨shown, machine⟩ := h.poll_machine
  rw [machine]
  split <;> rfl

/-- What the step of an action writes is there after the action. -/
theorem act_writes (writes : h.Writes action place byte) :
    (h.act action).machine.memory.get place = byte := by
  obtain ⟨m, steps, writes⟩ := writes
  unfold stepping? at steps
  split at steps
  · cases steps
    exact Machine.step_writes writes
  · split at steps
    · rename_i due
      cases steps
      rw [act, move, poll_memory, if_pos due]
      exact Machine.step_writes writes
    · cases steps
  · cases steps

/-- **Below the start of programs only steps write.** -/
theorem act_memory (low : place.val < programStart)
    (unwritten : ∀ byte, ¬ h.Writes action place byte) :
    (h.act action).machine.memory.get place = h.machine.memory.get place := by
  cases action with
  | operation op now =>
    apply Machine.perform_memory low
    rintro rfl byte writes
    exact unwritten byte ⟨h.machine, rfl, writes⟩
  | move move =>
    cases move with
    | setClock time | advance ms => rfl
    | poll =>
      rw [act, Host.move, poll_memory]
      split
      · rename_i due
        apply Machine.step_keeps (m := h.answered.machine)
        intro byte writes
        exact unwritten byte ⟨h.answered.machine, if_pos due, writes⟩
      · rfl

/-- A place below the start of programs to which no step has written holds what it held. -/
theorem acted_memory (h : Host σ) (actions : Nat → Action) {n : Nat} (low : place.val < programStart)
    (unwritten : h.Unwritten actions n place) :
    (h.acted actions n).machine.memory.get place = h.machine.memory.get place := by
  induction n with
  | zero => rfl
  | succ n ih =>
    have before := ih fun k earlier => unwritten k (Nat.lt_succ_of_lt earlier)
    rw [acted, act_memory low (unwritten n (Nat.lt_succ_self n)), before]

end Memory

/-! ## The font -/

/-- A place of the glyphs to which no step has written holds its byte of the font, whatever was
loaded before and since. -/
theorem acted_font (settings : Settings) (random : RandomStream) (image : List Rat)
    (start clock : Rat) (source : σ) (actions : Nat → Action) {n : Nat} {place : Fin 4096}
    (glyphs : place.val < Font.size)
    (unwritten : (create settings (Machine.loaded start random image) clock source).Unwritten
      actions n place) :
    ((create settings (Machine.loaded start random image) clock source).acted actions
      n).machine.memory.get place = Font.bytes.getD place.val 0 := by
  have low : place.val < programStart := by
    rw [Font.size] at glyphs
    rw [programStart]
    omega
  rw [acted_memory _ actions low unwritten, ← Memory.get_fresh glyphs]
  exact Memory.get_loadProgram_of_outside Memory.fresh (Or.inl low)

/-- **The digit font survives.**  Take a new machine into which any image has been loaded, as far
as it goes, with a host around it, and do with both what may be done.  A byte of the glyphs is as
it was built in, unless a step has written to it, which takes a store of registers or of digits,
complete or not; and what a step writes is there afterwards.  In every state in which no step has
written to the five bytes of a digit, a machine that points its index at the glyph of the digit in
a register and then draws five rows, with no other instruction between, toggles the cells of that
glyph, from its corner on and around the edges, and no others. -/
theorem digit_font_survives (settings : Settings) (random : RandomStream) (image : List Rat)
    (start clock : Rat) (source : σ) (actions : Nat → Action) (n : Nat) :
    let h := create settings (Machine.loaded start random image) clock source
    let m := (h.acted actions n).machine
    (∀ place : Fin 4096, place.val < Font.size → h.Unwritten actions n place →
      m.memory.get place = Font.bytes.getD place.val 0) ∧
    (∀ place byte, (h.acted actions n).Writes (actions n) place byte →
      (h.acted actions (n + 1)).machine.memory.get place = byte) ∧
    ∀ digit : Fin 16,
      (∀ place : Fin 4096, 5 * digit.val ≤ place.val → place.val < 5 * digit.val + 5 →
        h.Unwritten actions n place) →
      ∀ x now, m.Upcoming (.glyphIndex x) → (m.reg x).toNat = digit.val →
        ∃ pointed, m.step now = (pointed, .ok (.glyphIndex x)) ∧
          ∀ (ready : Machine) (y z : Register) (later : Rat), ready.core = pointed.core →
            ready.Upcoming (.draw y z 5) → ∃ after, ready.step later = (after, .ok (.draw y z 5)) ∧
              ∀ cell, after.screen.cells.get cell = (m.screen.cells.get cell ^^
                spriteBit (Font.glyph digit) (m.reg y).toNat (m.reg z).toNat cell) := by
  intro h m
  have font : ∀ place : Fin 4096, place.val < Font.size → h.Unwritten actions n place →
      m.memory.get place = Font.bytes.getD place.val 0 := by
    intro place glyphs unwritten
    exact acted_font settings random image start clock source actions glyphs unwritten
  refine ⟨font, fun place byte writes => act_writes writes, ?_⟩
  intro digit unwritten x now next value
  have built : m.memory.span (digit.val * Font.rowsPerGlyph) 5 = Font.glyph digit := by
    apply Memory.span_glyph
    rw [Font.rowsPerGlyph]
    intro place low high
    exact font place (by rw [Font.size]; omega) (unwritten place (by omega) (by omega))
  obtain ⟨pointed, ok, core⟩ := Machine.step_glyphIndex next now
  refine ⟨pointed, ok, ?_⟩
  intro ready y z later same next'
  rw [core, value] at same
  obtain ⟨registers, index, -, -, memory, cells⟩ := Machine.Core.mk.inj same
  have reg : ∀ r, ready.reg r = m.reg r := fun r => congrArg (Vector.get · r) registers
  have kept : ready.memory = m.memory := memory
  have picture : ready.screen.cells = m.screen.cells := cells
  obtain ⟨after, drawn, cell⟩ :=
    Machine.step_draw_glyph index (kept.symm ▸ built) next' later
  refine ⟨after, drawn, ?_⟩
  intro place
  rw [cell, picture, reg, reg]

/-- A program that stores V0 over the first byte of the glyphs and then draws the digit seven. -/
def overwriting : List Rat := [0xf0, 0x55, 0x60, 0x07, 0xf0, 0x29, 0xd1, 0x25]

/-- Its first byte is lost, and the digit seven, to which nothing was written, is drawn into the
corner of the screen. -/
theorem digit_font_survives_overwriting :
    let h := create watched (Machine.loaded 0 (RandomStream.cycle []) overwriting) 0 ()
    let steps : Nat → Action := fun _ => .operation .step 3
    (h.acted steps 1).machine.memory.get 0 = 0 ∧
      (h.acted steps 2).machine.memory.get 35 = 0xf0 ∧
      ∃ pointed after, (h.acted steps 2).machine.step 6 = (pointed, .ok (.glyphIndex 0)) ∧
        pointed.step 9 = (after, .ok (.draw 1 2 5)) ∧
        ∀ cell, after.screen.cells.get cell =
          ((h.acted steps 2).machine.screen.cells.get cell ^^
            spriteBit (Font.glyph 7) 0 0 cell) := by
  intro h steps
  have seen : h.machine.pc = (0x200 : Nat) ∧ h.machine.reg 0 = 0 ∧
      Instruction.decode (h.machine.memory.wordAt 0x200) = some (.store 0) ∧
      (h.acted steps 1).machine.pc = (0x202 : Nat) ∧
      Instruction.decode ((h.acted steps 1).machine.memory.wordAt 0x202) =
        some (.loadByte 0 7) ∧
      (h.acted steps 2).machine.pc = (0x204 : Nat) ∧
      Instruction.decode ((h.acted steps 2).machine.memory.wordAt 0x204) =
        some (.glyphIndex 0) ∧
      ((h.acted steps 2).machine.step 6).1.pc = (0x206 : Nat) ∧
      Instruction.decode (((h.acted steps 2).machine.step 6).1.memory.wordAt 0x206) =
        some (.draw 1 2 5) ∧
      ((h.acted steps 2).machine.reg 0).toNat = 7 ∧
      ((h.acted steps 2).machine.reg 1).toNat = 0 ∧
      ((h.acted steps 2).machine.reg 2).toNat = 0 := by decide +kernel
  obtain ⟨pc₀, zero, found₀, pc₁, found₁, pc₂, found₂, pc₃, found₃, seven, x, y⟩ := seen
  have first : h.machine.Upcoming (.store 0) := ⟨0x200, pc₀, by decide, found₀⟩
  have second : (h.acted steps 1).machine.Upcoming (.loadByte 0 7) :=
    ⟨0x202, pc₁, by decide, found₁⟩
  have third : (h.acted steps 2).machine.Upcoming (.glyphIndex 0) :=
    ⟨0x204, pc₂, by decide, found₂⟩
  have written : (h.acted steps 0).Writes (steps 0) 0 0 := by
    refine ⟨h.machine, rfl, ?_⟩
    have stored : h.machine.Writes 0 (h.machine.reg 0) :=
      .register 0 0 0 first rfl rfl (Nat.le_refl 0)
    rwa [zero] at stored
  have unwritten : ∀ place : Fin 4096, 5 * (7 : Fin 16).val ≤ place.val →
      place.val < 5 * (7 : Fin 16).val + 5 → h.Unwritten steps 2 place := by
    rintro place low - k earlier byte ⟨m, stepping, writes⟩
    have above : 35 ≤ place.val := low
    match k, earlier with
    | 0, _ =>
      obtain rfl : h.machine = m := Option.some.inj stepping
      obtain ⟨ins, next, -, i, offset, atIndex, here, few, -⟩ := writes.stores
      obtain rfl := next.unique first
      obtain rfl : 0 = i := Rat.natCast_inj.mp atIndex
      have one : offset < 1 := few
      omega
    | 1, _ =>
      obtain rfl : (h.acted steps 1).machine = m := Option.some.inj stepping
      obtain ⟨ins, next, some, -⟩ := writes.stores
      rw [next.unique second] at some
      exact absurd some (Nat.lt_irrefl 0)
  obtain ⟨-, lost, -⟩ :=
    digit_font_survives watched (RandomStream.cycle []) overwriting 0 0 () steps 0
  obtain ⟨kept, -, drawn⟩ :=
    digit_font_survives watched (RandomStream.cycle []) overwriting 0 0 () steps 2
  obtain ⟨pointed, ok, draws⟩ := drawn 7 unwritten 0 6 third seven
  have left : pointed = ((h.acted steps 2).machine.step 6).1 := by rw [ok]
  have next : pointed.Upcoming (.draw 1 2 5) := by
    rw [left]
    exact ⟨0x206, pc₃, by decide, found₃⟩
  obtain ⟨after, ok', cell⟩ := draws pointed 1 2 9 rfl next
  refine ⟨lost 0 0 written, kept 35 (by decide) (unwritten 35 (by decide) (by decide)),
    pointed, after, ok, ok', ?_⟩
  intro place
  rw [cell, x, y]

end Host

end Chip8
