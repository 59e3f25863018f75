/-
# Chip8.Proofs.RowTurns -- the bits of a row, each in its turn

A row is drawn bit by bit.  `drawBits` are the grid and the flag when the turn of a bit comes,
with the bits before it drawn, and `hits` tells whether the bit is set and comes to a cell that
is lit then, or to one that is off.  This covers all coordinates, also those where several bits
come to one cell:

* a row turns a cell off for each bit that hits a lit one, and on for each that hits one that
  is off (`lit_drawRow`), and it reports the former (`drawRow_reports`);
* where every bit comes to a cell, each set bit hits a lit one or one that is off
  (`hitCount_add`).

At whole coordinates in the exact range a bit comes to a cell that the bits before it have left
alone, so the row hits what its bits fall on before any of them is drawn (`rowHits_natCast`).
-/
import Chip8.Proofs.Sprite

set_option autoImplicit false

namespace Chip8.Grid

/-- The grid and the flag after the first bits of a row. -/
def drawBits (g : Grid) (byte : UInt8) (x y : Rat) (bits : Nat) : Grid × Bool :=
  (List.range bits).foldl (drawBit byte x y) (g, false)

/-- Whether a bit of a row is set and comes to a cell that is lit, or to one that is off. -/
def hits (g : Grid) (byte : UInt8) (x y : Rat) (lit : Bool) (bit : Nat) : Bool :=
  byte.toNat.testBit (7 - bit) &&
    (cellIndex? (Binary64.add x bit) y).any fun place => g.get place == lit

/-- How many of the first bits of a row hit a lit cell, or one that is off, in their turn. -/
def hitCount (g : Grid) (byte : UInt8) (x y : Rat) (lit : Bool) (bits : Nat) : Nat :=
  (List.range bits).countP fun bit => (g.drawBits byte x y bit).1.hits byte x y lit bit

/-- Whether a bit of a row hits a lit cell, or one that is off, in its turn. -/
def RowHits (g : Grid) (byte : UInt8) (x y : Rat) (lit : Bool) : Prop :=
  ∃ bit < 8, (g.drawBits byte x y bit).1.hits byte x y lit bit = true

/-- Whether a set bit of a row falls on a cell that is lit, or off, before the row is drawn. -/
def FallsOn (g : Grid) (byte : UInt8) (x y : Nat) (lit : Bool) : Prop :=
  ∃ bit < 8, byte.toNat.testBit (7 - bit) = true ∧ g.get (placeOf (x + bit) y) = lit

section Turns

variable {byte : UInt8} {x y : Rat}

/-! ## One bit -/

/-- How the number of lit cells changes when a cell is set. -/
theorem lit_set (g : Grid) (k : Fin 2048) (on : Bool) :
    lit (g.set k.val on k.isLt) + (g.get k).toNat = g.lit + on.toNat := by
  have inside : k.val < g.toList.length := by simp
  have here : g.toList[k.val] = g.get k := by simp [Vector.get]
  rw [lit, lit, Vector.toList_set, List.countP_set inside, here]
  cases held : g.get k with
  | false => cases on <;> rfl
  | true =>
    have lit : 0 < g.toList.countP id :=
      List.countP_pos_iff.mpr ⟨_, List.getElem_mem inside, here.trans held⟩
    cases on
    · show g.toList.countP id - 1 + 0 + 1 = g.toList.countP id + 0
      omega
    · show g.toList.countP id - 1 + 1 + 1 = g.toList.countP id + 1
      omega

/-- A bit turns a cell off if it hits a lit one, and on if it hits one that is off. -/
theorem lit_drawBit (byte : UInt8) (x y : Rat) (drawn : Grid × Bool) (bit : Nat) :
    (drawBit byte x y drawn bit).1.lit + (drawn.1.hits byte x y true bit).toNat =
      drawn.1.lit + (drawn.1.hits byte x y false bit).toNat := by
  obtain ⟨g, erased⟩ := drawn
  unfold drawBit hits
  cases found : cellIndex? (Binary64.add x bit) y with
  | none => simp
  | some k =>
    have changed := g.lit_set k (g.get k ^^ byte.toNat.testBit (7 - bit))
    show lit (g.set k.val (g.get k ^^ byte.toNat.testBit (7 - bit)) k.isLt) + _ = _
    simp only [Option.any_some]
    cases here : g.get k <;> cases set : byte.toNat.testBit (7 - bit) <;> simp_all

/-- The flag keeps whether a bit has hit a lit cell. -/
theorem drawBit_reports (drawn : Grid × Bool) (bit : Nat) :
    (drawBit byte x y drawn bit).2 = (drawn.2 || drawn.1.hits byte x y true bit) := by
  unfold drawBit hits
  cases found : cellIndex? (Binary64.add x bit) y with
  | none => simp
  | some k =>
    simp only [Option.any_some, beq_true]
    rw [Bool.and_comm]
    rfl

/-- A set bit that comes to a cell hits a lit one or one that is off. -/
theorem hits_add (g : Grid) (byte : UInt8) {bit : Nat}
    (placed : (cellIndex? (Binary64.add x bit) y).isSome = true) :
    (g.hits byte x y true bit).toNat + (g.hits byte x y false bit).toNat =
      (byte.toNat.testBit (7 - bit)).toNat := by
  obtain ⟨place, found⟩ := Option.isSome_iff_exists.mp placed
  rw [hits, hits, found, Option.any_some, Option.any_some]
  cases g.get place <;> cases byte.toNat.testBit (7 - bit) <;> rfl

/-! ## The first bits -/

theorem drawBits_succ (g : Grid) (bits : Nat) :
    g.drawBits byte x y (bits + 1) = drawBit byte x y (g.drawBits byte x y bits) bits := by
  rw [drawBits, List.range_succ, List.foldl_append, List.foldl_cons, List.foldl_nil, drawBits]

theorem hitCount_succ (g : Grid) (lit : Bool) (bits : Nat) :
    g.hitCount byte x y lit (bits + 1) =
      g.hitCount byte x y lit bits +
        ((g.drawBits byte x y bits).1.hits byte x y lit bits).toNat :=
  countP_range_succ _ bits

theorem hitCount_pos_iff (g : Grid) (lit : Bool) :
    0 < g.hitCount byte x y lit 8 ↔ g.RowHits byte x y lit := by
  simp only [hitCount, RowHits, List.countP_pos_iff, List.mem_range]

theorem lit_drawBits (g : Grid) (bits : Nat) :
    (g.drawBits byte x y bits).1.lit + g.hitCount byte x y true bits =
      g.lit + g.hitCount byte x y false bits := by
  induction bits with
  | zero => rfl
  | succ bits ih =>
    have last := lit_drawBit byte x y (g.drawBits byte x y bits) bits
    rw [drawBits_succ, hitCount_succ, hitCount_succ]
    omega

/-- **A row turns a cell off or on for each bit that hits one.** -/
theorem lit_drawRow (g : Grid) (byte : UInt8) (x y : Rat) :
    (g.drawRow byte x y).1.lit + g.hitCount byte x y true 8 =
      g.lit + g.hitCount byte x y false 8 :=
  g.lit_drawBits 8

theorem drawBits_reports (g : Grid) (bits : Nat) :
    (g.drawBits byte x y bits).2 = true ↔ 0 < g.hitCount byte x y true bits := by
  induction bits with
  | zero => simp [drawBits, hitCount]
  | succ bits ih =>
    rw [drawBits_succ, drawBit_reports, hitCount_succ, Bool.or_eq_true, ih]
    cases (g.drawBits byte x y bits).1.hits byte x y true bits <;> simp

/-- **A row reports exactly whether a bit of it hits a lit cell.** -/
theorem drawRow_reports (g : Grid) :
    (g.drawRow byte x y).2 = true ↔ g.RowHits byte x y true :=
  (g.drawBits_reports 8).trans (g.hitCount_pos_iff true)

/-- Where every bit comes to a cell, each set one hits a lit cell or one that is off. -/
theorem hitCount_add (g : Grid) {bits : Nat}
    (placed : ∀ bit < bits, (cellIndex? (Binary64.add x bit) y).isSome = true) :
    g.hitCount byte x y true bits + g.hitCount byte x y false bits =
      (List.range bits).countP fun bit => byte.toNat.testBit (7 - bit) := by
  induction bits with
  | zero => rfl
  | succ bits ih =>
    have before := ih fun bit earlier => placed bit (Nat.lt_succ_of_lt earlier)
    have last := (g.drawBits byte x y bits).1.hits_add byte (placed bits (Nat.lt_succ_self bits))
    rw [hitCount_succ, hitCount_succ, countP_range_succ]
    omega

end Turns

/-! ## At whole coordinates -/

section Whole

variable {byte : UInt8} {x y : Nat} (hx : x + 7 ≤ Binary64.exactLimit)
  (hy : y < Binary64.rangeEnd)

include hx hy

/-- **In the exact range a row hits what its bits fall on.** -/
theorem rowHits_natCast (g : Grid) (lit : Bool) :
    g.RowHits byte (x : Rat) (y : Rat) lit ↔ g.FallsOn byte x y lit := by
  apply exists_congr
  intro bit
  apply and_congr_right
  intro inside
  have found := cellIndex?_add (by omega : x + bit ≤ Binary64.exactLimit) hy
  obtain ⟨-, column⟩ := (eq_placeOf_iff x y bit (by omega) _).mp rfl
  -- the earlier bits have left the cell under this one alone
  have before := get_drawBits byte (x : Rat) (y : Rat) g false bit (placeOf (x + bit) y)
  rw [bitsOn_natCast (by omega) hx hy, column, decide_eq_false (Nat.lt_irrefl bit),
    Bool.and_false, Bool.false_and, Bool.toNat_false, Nat.bodd_zero, Bool.xor_false,
    ← drawBits] at before
  rw [hits, found, Option.any_some, before, Bool.and_eq_true, beq_iff_eq]

end Whole

end Chip8.Grid
