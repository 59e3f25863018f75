/-
# Chip8.Proofs.SpriteDrawing -- the sprite instruction

A draw instruction takes its corner from two registers and its rows from memory at the index.
`spriteAt` says which cells are under a set bit of that sprite.  If there is memory for the
rows, the step toggles these cells, each once, sets the flag exactly if a cell went off, and
changes the number of lit cells accordingly (`step_draw`).  The corner is read before the flag
is written, so the flag register may hold a coordinate.

Where it does not, the sprite is still at its place after the step, and drawing it again undoes
the first drawing: `redraw_restores`.
-/
import Chip8.Proofs.Collision
import Chip8.Proofs.Failure
import Chip8.Proofs.Footprint

set_option autoImplicit false

namespace Chip8

namespace Machine

variable {m first again second after : Machine} {now : Rat} {here i : Nat} {x y : Register}
  {rows : Fin 16}

/-- Whether a set bit of the sprite of some rows at index `i`, with its corner in registers `x`
and `y`, falls on a place. -/
def spriteAt (m : Machine) (x y : Register) (rows : Fin 16) (i : Nat) (place : Fin 2048) : Bool :=
  let down := rowsFrom (m.reg y).toNat place
  let right := columnsFrom (m.reg x).toNat place
  decide (down < rows.val) && decide (right < 8) &&
    (m.memory.byteAt (i + down)).toNat.testBit (7 - right)

/-- There is memory for the rows of a sprite, or there are none. -/
def HasRows (m : Machine) (i : Nat) (rows : Fin 16) : Prop :=
  rows.val = 0 ∨ m.i = (i : Rat) ∧ i + rows.val ≤ 0x1000

/-- What a sprite of some rows at index `i` makes of a machine. -/
structure Draws (m : Machine) (x y : Register) (rows : Fin 16) (i : Nat) (after : Machine) :
    Prop where
  /-- The cells under the sprite are toggled, and no others. -/
  cell : ∀ place, after.screen.cells.get place =
    (m.screen.cells.get place ^^ m.spriteAt x y rows i place)
  /-- Each of them is drawn on once, and no other is. -/
  once : ∀ place, Grid.strokes (byteValue (m.reg x)) (m.reg y).toNat place
    (m.memory.span i rows.val) = (m.spriteAt x y rows i place).toNat
  flag : after.reg flagRegister = if ∃ place, m.screen.cells.get place = true ∧
    after.screen.cells.get place = false then 1 else 0
  lit : after.screen.cells.lit + 2 * (Grid.count fun place =>
      m.screen.cells.get place && m.spriteAt x y rows i place) =
    m.screen.cells.lit + ∑ k ∈ Finset.range rows.val, Grid.setBits (m.memory.byteAt (i + k))

/-! ## The sprite -/

section Rows

variable (inside : m.HasRows i rows)

include inside

theorem readFrom_rows : m.memory.readFrom m.i rows.val = (m.memory.span i rows.val, none) := by
  rcases inside with rowless | ⟨atIndex, fits⟩
  · rw [rowless]
    rfl
  · have enough : Memory.runFault? i rows.val = none := if_pos (Or.inr fits)
    rw [atIndex, Memory.readFrom_natCast, enough]

theorem span_rows : m.memory.span i rows.val =
    (List.range rows.val).map fun k => m.memory.byteAt (i + k) := by
  rcases inside with rowless | ⟨-, fits⟩
  · rw [rowless]
    rfl
  · exact m.memory.span_eq_map fits

theorem spriteBit_span (x y : Register) (place : Fin 2048) :
    spriteBit (m.memory.span i rows.val) (m.reg x).toNat (m.reg y).toNat place =
      m.spriteAt x y rows i place := by
  rw [span_rows inside, spriteBit, spriteAt]
  by_cases within : rowsFrom (m.reg y).toNat place < rows.val
  · rw [List.getD_eq_getElem _ _ (by simpa using within), List.getElem_map, List.getElem_range,
      rowBit, decide_eq_true within, Bool.true_and]
  · rw [List.getD_eq_default _ _ (by simpa using within), rowBit_zero, decide_eq_false within,
      Bool.false_and, Bool.false_and]

theorem get_drawRows_rows (x y : Register) (erased : Bool) (place : Fin 2048) :
    Vector.get (Grid.drawRows (byteValue (m.reg x)) (m.reg y).toNat (m.screen.cells, erased)
        (m.memory.span i rows.val)).1 place =
      (m.screen.cells.get place ^^ m.spriteAt x y rows i place) := by
  rw [drawRows_span, Grid.get_toggled, spriteBit_span inside]

/-- **A sprite turns a cell off exactly if it falls on a lit one.** -/
theorem drawRows_rows_erased (x y : Register) :
    (Grid.drawRows (byteValue (m.reg x)) (m.reg y).toNat (m.screen.cells, false)
        (m.memory.span i rows.val)).2 = true ↔
      ∃ place, m.screen.cells.get place = true ∧ m.spriteAt x y rows i place = true := by
  obtain ⟨column, row, few⟩ := m.sprite_bounds x y i rows
  have erased := Grid.drawRows_erased column row few m.screen.cells false
  simp only [spriteBit_span inside, Bool.false_eq_true, false_or] at erased
  exact erased

theorem strokes_rows (x y : Register) (place : Fin 2048) :
    Grid.strokes (byteValue (m.reg x)) (m.reg y).toNat place (m.memory.span i rows.val) =
      (m.spriteAt x y rows i place).toNat := by
  obtain ⟨column, row, few⟩ := m.sprite_bounds x y i rows
  rw [← spriteBit_span inside]
  exact Grid.strokes_natCast column row few place

theorem setBits_rows : ((m.memory.span i rows.val).map Grid.setBits).sum =
    ∑ k ∈ Finset.range rows.val, Grid.setBits (m.memory.byteAt (i + k)) := by
  rw [span_rows inside, List.map_map]
  rfl

end Rows

/-! ## The step -/

/-- The machine that a draw instruction standing at `here` leaves. -/
def drawn (m : Machine) (now : Rat) (here : Nat) (x y : Register) (sprite : List UInt8) :
    Machine :=
  let painted := Grid.drawRows (byteValue (m.reg x)) (m.reg y).toNat (m.screen.cells, false) sprite
  let painting := (({ m with lastStepAt := now } : Machine).setGrid painted.1).setFlag painted.2
  { painting with pc := (((here + 2) % 65536 : Nat) : Rat) }

theorem step_eq_drawn (now : Rat) (atPc : m.pc = (here : Rat)) (inside : here ≤ 0xffe)
    (found : Instruction.decode (m.memory.wordAt here) = some (.draw x y rows))
    (fits : m.HasRows i rows) :
    m.step now = (m.drawn now here x y (m.memory.span i rows.val), .ok (.draw x y rows)) := by
  have sprite : ({ m with lastStepAt := now } : Machine).memory.readFrom m.i rows.val =
      (m.memory.span i rows.val, none) := readFrom_rows fits
  refine step_eq_ok_iff.mpr ⟨here, here + 2, atPc, inside, found, ?_, ?_⟩
  · simp only [execute, sprite]
  · simp only [execute, sprite]
    rfl

/-- A cell that was lit is off afterwards exactly if it is under the sprite. -/
theorem off_iff_spriteAt {after : Grid} {place : Fin 2048}
    (cell : after.get place = (m.screen.cells.get place ^^ m.spriteAt x y rows i place)) :
    m.screen.cells.get place = true ∧ after.get place = false ↔
      m.screen.cells.get place = true ∧ m.spriteAt x y rows i place = true := by
  rw [cell]
  apply and_congr_right
  intro lit
  rw [lit, Bool.true_xor, Bool.not_eq_false']

theorem draws_drawn (fits : m.HasRows i rows) (now : Rat) (here : Nat) (x y : Register) :
    m.Draws x y rows i (m.drawn now here x y (m.memory.span i rows.val)) := by
  have cell := get_drawRows_rows fits x y false
  constructor
  · exact cell
  · exact strokes_rows fits x y
  · have erased := drawRows_rows_erased fits x y
    rw [← exists_congr fun place => off_iff_spriteAt (cell place)] at erased
    exact (reg_setFlag_self _ _).trans (if_congr erased rfl rfl)
  · have lit := m.screen.cells.lit_toggled (m.sprite_bounds x y i rows).2.2 (m.reg x).toNat
      (m.reg y).toNat
    simp only [spriteBit_span fits, setBits_rows fits] at lit
    rw [← drawRows_span m x y rows false] at lit
    exact lit

/-- **What the step of a draw instruction does.** -/
theorem step_draw (now : Rat) (atPc : m.pc = (here : Rat)) (inside : here ≤ 0xffe)
    (found : Instruction.decode (m.memory.wordAt here) = some (.draw x y rows))
    (fits : m.HasRows i rows) :
    ∃ after, m.step now = (after, .ok (.draw x y rows)) ∧ m.Draws x y rows i after :=
  ⟨_, step_eq_drawn now atPc inside found fits, draws_drawn fits now here x y⟩

/-- A machine about to draw the glyph of the digit 8 with VF for both coordinates: in the last
column and the last row, from where it comes around both edges, with one lit cell under it. -/
def atTheCorner : Machine :=
  { ((create 0 (RandomStream.cycle [])).loadRom [0xdf, 0xf5]).1 with
    v := Vector.ofFn fun r => if r = flagRegister then 255 else 0
    i := (40 : Nat)
    screen := { Screen.create 0 with cells := (Grid.blank.drawRow 0x80 63 31).1 } }

/-- The flag register holds both coordinates, and then the flag. -/
theorem step_draw_atTheCorner :
    ∃ after, atTheCorner.step 3 = (after, .ok (.draw 0xf 0xf 5)) ∧
      atTheCorner.Draws 0xf 0xf 5 40 after := by
  have found : Instruction.decode (atTheCorner.memory.wordAt 0x200) = some (.draw 0xf 0xf 5) := by
    decide +kernel
  exact step_draw 3 rfl (by decide) found (Or.inr ⟨rfl, by decide⟩)

/-! ## Drawing twice -/

theorem step_draw_frame (ok : m.step now = (after, .ok (.draw x y rows))) :
    (∀ r, r ≠ flagRegister → after.reg r = m.reg r) ∧ after.i = m.i ∧
      after.memory = m.memory := by
  refine ⟨?_, step_index ok id, ?_⟩
  · intro r other
    exact step_reg ok other
  · apply Memory.ext_get
    intro a
    apply step_memory ok
    rintro ⟨above, below⟩
    have nothing : m.i + ((Instruction.draw x y rows).bytesStored : Rat) = m.i := Rat.add_zero m.i
    rw [nothing] at below
    exact absurd below (Rat.not_lt.mpr above)

/-- A machine that is about to draw a sprite where another one has drawn it: with its
registers, its index and its picture, and the same rows in memory. -/
structure Redraws (first : Machine) (x y : Register) (rows : Fin 16) (i : Nat)
    (again : Machine) : Prop where
  next : ∃ there : Nat, again.pc = (there : Rat) ∧ there ≤ 0xffe ∧
    Instruction.decode (again.memory.wordAt there) = some (.draw x y rows)
  registers : again.v = first.v
  index : again.i = first.i
  bytes : ∀ k < rows.val, again.memory.byteAt (i + k) = first.memory.byteAt (i + k)
  cells : again.screen.cells = first.screen.cells

theorem spriteAt_congr {other : Machine} (column : other.reg x = m.reg x)
    (row : other.reg y = m.reg y)
    (bytes : ∀ k < rows.val, other.memory.byteAt (i + k) = m.memory.byteAt (i + k))
    (place : Fin 2048) : other.spriteAt x y rows i place = m.spriteAt x y rows i place := by
  rw [spriteAt, spriteAt, column, row]
  by_cases within : rowsFrom (m.reg y).toNat place < rows.val
  · rw [bytes _ within]
  · simp only [decide_eq_false within, Bool.false_and]

/-- A set bit of a sprite falls on some place. -/
theorem exists_spriteAt (m : Machine) (x y : Register) {k bit : Nat} (row : k < rows.val)
    (small : bit < 8) (set : (m.memory.byteAt (i + k)).toNat.testBit bit = true) :
    ∃ place, m.spriteAt x y rows i place = true := by
  refine ⟨Grid.placeOf ((m.reg x).toNat + (7 - bit)) ((m.reg y).toNat + k), ?_⟩
  have fifteen := rows.isLt
  have down : rowsFrom (m.reg y).toNat
      (Grid.placeOf ((m.reg x).toNat + (7 - bit)) ((m.reg y).toNat + k)) = k := by
    simp only [rowsFrom, Grid.placeOf]
    omega
  have right : columnsFrom (m.reg x).toNat
      (Grid.placeOf ((m.reg x).toNat + (7 - bit)) ((m.reg y).toNat + k)) = 7 - bit := by
    simp only [columnsFrom, Grid.placeOf]
    omega
  have back : 7 - (7 - bit) = bit := by omega
  have within : 7 - bit < 8 := by omega
  rw [spriteAt, down, right, back, set, decide_eq_true row, decide_eq_true within]
  rfl

/-- Where neither coordinate is in the flag register, the sprite is still where it was. -/
theorem Redraws.spriteAt_eq (ready : first.Redraws x y rows i again)
    (ok : m.step now = (first, .ok (.draw x y rows))) (column : x ≠ flagRegister)
    (row : y ≠ flagRegister) (place : Fin 2048) :
    again.spriteAt x y rows i place = m.spriteAt x y rows i place := by
  obtain ⟨registers, -, memory⟩ := step_draw_frame ok
  apply spriteAt_congr
  · rw [← registers x column, reg, reg, ready.registers]
  · rw [← registers y row, reg, reg, ready.registers]
  · intro k within
    rw [ready.bytes k within, memory]

section Twice

variable (drawn : m.Draws x y rows i first) (cells : again.screen.cells = first.screen.cells)
  (sprite : ∀ place, again.spriteAt x y rows i place = m.spriteAt x y rows i place)
  (drawnAgain : again.Draws x y rows i second)

include drawn cells sprite drawnAgain

theorem Draws.restores : second.screen.cells = m.screen.cells := by
  apply Grid.ext_get
  intro place
  rw [drawnAgain.cell, cells, drawn.cell, sprite, Bool.xor_assoc, Bool.xor_self, Bool.xor_false]

/-- The second drawing turns off what the first has turned on. -/
theorem Draws.flag_again : second.reg flagRegister =
    if ∃ place, m.spriteAt x y rows i place = true ∧ m.screen.cells.get place = false then 1
    else 0 := by
  rw [drawnAgain.flag]
  apply if_congr _ rfl rfl
  apply exists_congr
  intro place
  rw [drawn.restores cells sprite drawnAgain, cells, drawn.cell]
  cases m.screen.cells.get place <;> simp

/-- Of a cell under the sprite one of the two drawings turns it off. -/
theorem Draws.flag_either {place : Fin 2048} (under : m.spriteAt x y rows i place = true) :
    first.reg flagRegister = 1 ∨ second.reg flagRegister = 1 := by
  cases lit : m.screen.cells.get place with
  | true =>
    have off : first.screen.cells.get place = false := by
      rw [drawn.cell, lit, under]
      rfl
    refine Or.inl ?_
    rw [drawn.flag, if_pos ⟨place, lit, off⟩]
  | false =>
    refine Or.inr ?_
    rw [drawn.flag_again cells sprite drawnAgain, if_pos ⟨place, under, lit⟩]

end Twice

/-- **Drawing a sprite twice erases it.** -/
theorem redraw_restores (now : Rat) (atPc : m.pc = (here : Rat)) (inside : here ≤ 0xffe)
    (found : Instruction.decode (m.memory.wordAt here) = some (.draw x y rows))
    (atIndex : m.i = (i : Rat)) (fits : i + rows.val ≤ 0x1000)
    (column : x ≠ flagRegister) (row : y ≠ flagRegister) :
    ∃ first, m.step now = (first, .ok (.draw x y rows)) ∧
      ∀ again later, first.Redraws x y rows i again →
        ∃ second, again.step later = (second, .ok (.draw x y rows)) ∧
          second.screen.cells = m.screen.cells ∧
          second.reg flagRegister = (if ∃ place, m.spriteAt x y rows i place = true ∧
            m.screen.cells.get place = false then 1 else 0) ∧
          ((∃ k < rows.val, ∃ bit < 8, (m.memory.byteAt (i + k)).toNat.testBit bit = true) →
            first.reg flagRegister = 1 ∨ second.reg flagRegister = 1) := by
  have rowsThere : m.HasRows i rows := Or.inr ⟨atIndex, fits⟩
  have ok := step_eq_drawn now atPc inside found rowsThere
  have drawn := draws_drawn rowsThere now here x y
  refine ⟨_, ok, ?_⟩
  intro again later ready
  obtain ⟨there, atPc', inside', found'⟩ := ready.next
  have rowsStill : again.HasRows i rows := by
    refine Or.inr ⟨?_, fits⟩
    rw [ready.index, (step_draw_frame ok).2.1, atIndex]
  have sprite := ready.spriteAt_eq ok column row
  have drawnAgain := draws_drawn rowsStill later there x y
  refine ⟨_, step_eq_drawn later atPc' inside' found' rowsStill, ?_, ?_, ?_⟩
  · exact drawn.restores ready.cells sprite drawnAgain
  · exact drawn.flag_again ready.cells sprite drawnAgain
  · rintro ⟨k, within, bit, small, set⟩
    obtain ⟨place, under⟩ := exists_spriteAt m x y within small set
    exact drawn.flag_either ready.cells sprite drawnAgain under

/-- A machine about to draw the glyph of the digit 8 in the last column and the last row, over
one lit cell, with two draw instructions one behind the other. -/
def twice : Machine :=
  { ((create 0 (RandomStream.cycle [])).loadRom [0xd1, 0x25, 0xd1, 0x25]).1 with
    v := Vector.ofFn fun r => if r.val = 1 then 63 else if r.val = 2 then 31 else 7
    i := (40 : Nat)
    screen := { Screen.create 0 with cells := (Grid.blank.drawRow 0x80 63 31).1 } }

/-- The second drawing leaves the picture as it was before the first, and sets the flag. -/
theorem redraw_restores_twice :
    ∃ first second, twice.step 3 = (first, .ok (.draw 1 2 5)) ∧
      first.step 6 = (second, .ok (.draw 1 2 5)) ∧
      second.screen.cells = twice.screen.cells ∧ second.reg flagRegister = 1 := by
  have atPc : twice.pc = ((0x200 : Nat) : Rat) := rfl
  have atIndex : twice.i = ((40 : Nat) : Rat) := rfl
  have found : Instruction.decode (twice.memory.wordAt 0x200) = some (.draw 1 2 5) := by
    decide +kernel
  have again : Instruction.decode (twice.memory.wordAt 0x202) = some (.draw 1 2 5) := by
    decide +kernel
  obtain ⟨first, ok, erases⟩ := redraw_restores 3 atPc (by decide) found atIndex (by decide)
    (by decide) (by decide)
  obtain ⟨-, -, memory⟩ := step_draw_frame ok
  have behind : first.pc = ((0x202 : Nat) : Rat) := by
    rw [step_pc_of_ne_ret ok (by decide)]
    exact pc_add atPc 2
  have ready : first.Redraws 1 2 5 40 first := by
    refine ⟨⟨0x202, behind, by decide, ?_⟩, rfl, rfl, fun _ _ => rfl, rfl⟩
    rw [memory]
    exact again
  obtain ⟨second, ok', restored, flag, -⟩ := erases first 6 ready
  refine ⟨first, second, ok, ok', restored, ?_⟩
  rw [flag, if_pos]
  exact ⟨Grid.placeOf 0 31, by decide +kernel, by decide +kernel⟩

end Machine

end Chip8
