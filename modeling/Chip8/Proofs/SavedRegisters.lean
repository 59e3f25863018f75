/-
# Chip8.Proofs.SavedRegisters -- what is stored comes back

Two instructions store bytes from the index on, the registers V0 to `Vx` or the three decimal
digits of one (`Instruction.stores`), and a load reads registers from there.  A store that
succeeds has room for all its bytes (`step_stores`), and a load reads what stands there and
changes nothing else (`step_load`).

So the registers come back, or the digits, as long as nothing has written over them in between:
`saved_registers_come_back`.
-/
import Chip8.Proofs.MemoryHistory

set_option autoImplicit false

namespace Chip8

/-- The bytes that an instruction stores. -/
def Instruction.stores (m : Machine) : Instruction → List UInt8
  | .storeDecimal x => Machine.decimalDigits (m.reg x)
  | .store x => m.v.toList.take (x.val + 1)
  | _ => []

theorem Instruction.length_stores (m : Machine) (ins : Instruction) :
    (ins.stores m).length = ins.bytesStored := by
  cases ins with
  | store x => exact Machine.length_take_registers m x
  | _ => rfl

namespace Machine

variable {m stored : Machine} {now : Rat} {here next a : Nat} {ins : Instruction} {x z : Register}

/-! ## Storing -/

theorem execute_of_stores (m : Machine) (now : Rat) (here : Nat) (writes : 0 < ins.bytesStored) :
    m.execute now here ins =
      unlessFault { m with memory := (m.memory.writeFrom m.i (ins.stores m)).1 }
        (m.memory.writeFrom m.i (ins.stores m)).2 (here + 2) := by
  cases ins with
  | storeDecimal x | store x => rfl
  | _ => exact absurd writes (Nat.lt_irrefl 0)

theorem not_setsIndex_of_stores (writes : 0 < ins.bytesStored) : ¬ ins.SetsIndex := by
  cases ins with
  | loadIndex target | addIndex x | glyphIndex x => exact absurd writes (Nat.lt_irrefl 0)
  | _ => exact id

/-- **A store that succeeds** has laid its bytes over memory, and all of them inside. -/
theorem step_stores (ok : m.step now = (stored, .ok ins)) (writes : 0 < ins.bytesStored) :
    ∃ a : Nat, m.i = (a : Rat) ∧ a + ins.bytesStored ≤ 4096 ∧
      stored.memory = m.memory.overlay a (ins.stores m) := by
  obtain ⟨here, next, -, -, -, answer, rfl⟩ := step_eq_ok_iff.mp ok
  rw [execute_of_stores _ now here writes] at answer ⊢
  rw [unlessFault_fst]
  have nonempty : ins.stores m ≠ [] := by
    rw [← List.length_pos_iff, Instruction.length_stores]
    exact writes
  have through : (m.memory.writeFrom m.i (ins.stores m)).2 = none := by
    have same : ins.stores { m with lastStepAt := now } = ins.stores m := by
      cases ins <;> rfl
    rw [unlessFault_snd, same] at answer
    split at answer
    · cases answer
    · assumption
  obtain ⟨a, atIndex, inside, laid⟩ := Memory.writeFrom_snd_none nonempty through
  rw [Instruction.length_stores] at inside
  refine ⟨a, atIndex, inside, ?_⟩
  rw [← laid]
  cases ins <;> rfl

/-- A store with room for its bytes succeeds. -/
theorem exists_step_stores (now : Rat) (upcoming : m.Upcoming ins) (atIndex : m.i = (a : Rat))
    (inside : a + ins.bytesStored ≤ 4096) (writes : 0 < ins.bytesStored) :
    ∃ stored, m.step now = (stored, .ok ins) := by
  obtain ⟨here, atPc, inMemory, found⟩ := upcoming
  refine ⟨_, step_eq_ok_iff.mpr ⟨here, here + 2, atPc, inMemory, found, ?_, rfl⟩⟩
  have through : (m.memory.writeFrom m.i (ins.stores { m with lastStepAt := now })).2 = none := by
    rw [atIndex, Memory.writeFrom_natCast, Instruction.length_stores, Memory.runFault?,
      if_pos (Or.inr inside)]
  rw [execute_of_stores _ now here writes, unlessFault_snd]
  simp only [through]

/-! ## Loading -/

/-- A machine after a load of V0 to `Vz` from index `a`. -/
structure Loads (m : Machine) (z : Register) (a : Nat) (after : Machine) : Prop where
  loaded : ∀ r ≤ z, after.reg r = m.memory.byteAt (a + r.val)
  kept : ∀ r, z < r → after.reg r = m.reg r
  index : after.i = m.i
  memory : after.memory = m.memory

/-- **A load inside memory succeeds.** -/
theorem step_load (now : Rat) (upcoming : m.Upcoming (.load z)) (atIndex : m.i = (a : Rat))
    (inside : a + z.val < 4096) :
    ∃ after, m.step now = (after, .ok (.load z)) ∧ m.Loads z a after := by
  obtain ⟨here, atPc, inMemory, found⟩ := upcoming
  have bytes : m.memory.readFrom m.i (z.val + 1) =
      ((List.range (z.val + 1)).map fun k => m.memory.byteAt (a + k), none) := by
    rw [atIndex, Memory.readFrom_natCast, Memory.span_eq_map _ (by omega), Memory.runFault?,
      if_pos (by omega)]
  have done : ({ m with lastStepAt := now } : Machine).execute now here (.load z) =
      ({ m with
          lastStepAt := now
          v := m.v.overwrite 0 ((List.range (z.val + 1)).map fun k => m.memory.byteAt (a + k)) },
        .ok (here + 2)) := by
    simp only [execute, bytes]
    rfl
  refine ⟨_, step_eq_ok_iff.mpr ⟨here, here + 2, atPc, inMemory, found, ?_, rfl⟩, ?_⟩
  · rw [done]
  · rw [done]
    refine ⟨?_, ?_, rfl, rfl⟩
    · intro r listed
      have low : r.val < z.val + 1 := Nat.lt_succ_of_le listed
      refine (Registers.get_overwrite _ _ r).trans ?_
      rw [List.getD_eq_getElem _ _ (by simpa using low), List.getElem_map, List.getElem_range]
    · intro r beyond
      have high : z.val + 1 ≤ r.val := beyond
      refine (Registers.get_overwrite _ _ r).trans ?_
      rw [List.getD_eq_default _ _ (by simpa using high)]
      rfl

/-! ## There and back -/

/-- What `count` bytes from index `a` on are good for: after any run of events that spares them,
a load of V0 to `Vz` from there succeeds, leaves `Restored`, and changes no other register, the
index or memory. -/
def Recalls (stored : Machine) (a count : Nat) (z : Register) (Restored : Machine → Prop) : Prop :=
  ∀ events later, stored.Spares a count events → (stored.meetAll events).Upcoming (.load z) →
    (stored.meetAll events).i = (a : Rat) →
      ∃ after, (stored.meetAll events).step later = (after, .ok (.load z)) ∧ Restored after ∧
        (∀ r, z < r → after.reg r = (stored.meetAll events).reg r) ∧ after.i = (a : Rat) ∧
        after.memory = (stored.meetAll events).memory

/-- Bytes that were stored are loaded, each into its register. -/
theorem recalls_overlay {before : Memory} {bytes : List UInt8} {count : Nat}
    (size : bytes.length = count) (inside : a + count ≤ 4096)
    (laid : stored.memory = before.overlay a bytes) (few : z.val < count) :
    stored.Recalls a count z fun after => ∀ r ≤ z, bytes[r.val]? = some (after.reg r) := by
  intro events later spares upcoming atIndex
  obtain ⟨after, ok, loads⟩ := step_load later upcoming atIndex (by omega)
  refine ⟨after, ok, ?_, loads.kept, loads.index.trans atIndex, loads.memory⟩
  intro r listed
  have low : r.val < bytes.length := by
    have : r.val ≤ z.val := listed
    omega
  have kept : (stored.meetAll events).memory.byteAt (a + r.val) = bytes[r.val] := by
    rw [spares.byteAt (by omega) (by omega) (by omega), laid,
      Memory.byteAt_overlay _ low (by omega)]
  rw [loads.loaded r listed, kept, List.getElem?_eq_getElem low]

theorem Recalls.imp {count : Nat} {Restored Restored' : Machine → Prop}
    (recalls : stored.Recalls a count z Restored)
    (weaker : ∀ after, Restored after → Restored' after) :
    stored.Recalls a count z Restored' := by
  intro events later spares upcoming atIndex
  obtain ⟨after, ok, restored, rest⟩ := recalls events later spares upcoming atIndex
  exact ⟨after, ok, weaker after restored, rest⟩

/-- The three digits of a byte. -/
theorem decimalDigits_spec (b : UInt8) :
    (b / 100).toNat ≤ 9 ∧ (b % 100 / 10).toNat ≤ 9 ∧ (b % 10).toNat ≤ 9 ∧
      100 * (b / 100).toNat + 10 * (b % 100 / 10).toNat + (b % 10).toNat = b.toNat := by
  have small := b.toNat_lt
  have hundreds : (b / 100).toNat = b.toNat / 100 := rfl
  have tens : (b % 100 / 10).toNat = b.toNat % 100 / 10 := rfl
  have ones : (b % 10).toNat = b.toNat % 10 := rfl
  omega

/-- **What is stored comes back.**  An instruction that stores bytes and succeeds finds room for
them from the index on, and leaves the index and the rest of memory alone.  After any run of
events that writes to none of these bytes, a load from the same index succeeds.  If V0 to `Vx`
were stored, it gives any first part of them their values; if the digits of `Vx` were, it gives
V0, V1 and V2 three digits that are the number.  It changes no other register, nor the index, nor
memory. -/
theorem saved_registers_come_back (ok : m.step now = (stored, .ok ins))
    (writes : 0 < ins.bytesStored) :
    ∃ a : Nat, m.i = (a : Rat) ∧ a + ins.bytesStored ≤ 0x1000 ∧ stored.i = (a : Rat) ∧
      (∀ place : Fin 4096, place.val < a ∨ a + ins.bytesStored ≤ place.val →
        stored.memory.get place = m.memory.get place) ∧
      (∀ x, ins = .store x → ∀ z ≤ x,
        stored.Recalls a (x.val + 1) z fun after => ∀ r ≤ z, after.reg r = m.reg r) ∧
      (∀ x, ins = .storeDecimal x →
        stored.Recalls a 3 2 fun after =>
          (after.reg 0).toNat ≤ 9 ∧ (after.reg 1).toNat ≤ 9 ∧ (after.reg 2).toNat ≤ 9 ∧
            100 * (after.reg 0).toNat + 10 * (after.reg 1).toNat + (after.reg 2).toNat =
              (m.reg x).toNat) := by
  obtain ⟨a, atIndex, inside, laid⟩ := step_stores ok writes
  have size := Instruction.length_stores m ins
  refine ⟨a, atIndex, inside, (step_index ok (not_setsIndex_of_stores writes)).trans atIndex,
    ?_, ?_, ?_⟩
  · intro place outside
    rw [laid, Memory.get_overlay]
    rcases outside with below | behind
    · rw [if_neg (by omega)]
    · rw [if_pos (by omega), List.getD_eq_default _ _ (by omega)]
  · rintro x rfl z listed
    have few : z.val < x.val + 1 := Nat.lt_succ_of_le listed
    refine (recalls_overlay size inside laid few).imp ?_
    intro after loaded r low
    have within : r.val < x.val + 1 := Nat.lt_of_le_of_lt low few
    have listed : (m.v.toList.take (x.val + 1))[r.val]? = some (m.reg r) := by
      rw [List.getElem?_take_of_lt within, Vector.getElem?_toList, Vector.getElem?_eq_getElem r.isLt]
      rfl
    exact Option.some.inj ((loaded r low).symm.trans listed)
  · rintro x rfl
    refine (recalls_overlay size inside laid (by show 2 < 3; decide)).imp ?_
    intro after loaded
    have hundreds : m.reg x / 100 = after.reg 0 := Option.some.inj (loaded 0 (by decide))
    have tens : m.reg x % 100 / 10 = after.reg 1 := Option.some.inj (loaded 1 (by decide))
    have ones : m.reg x % 10 = after.reg 2 := Option.some.inj (loaded 2 (by decide))
    rw [← hundreds, ← tens, ← ones]
    exact decimalDigits_spec (m.reg x)

/-- A program that stores V0 to V2 at `0x300`, clears V0 and loads V0 and V1 again. -/
def storing : Machine :=
  { ((create 0 (RandomStream.cycle [])).loadRom [0xf2, 0x55, 0x60, 0x00, 0xf1, 0x65]).1 with
    v := Vector.ofFn fun r => UInt8.ofNat (16 * r.val + 1)
    i := (0x300 : Nat) }

/-- V0 is cleared, a byte is written behind the registers, and then every register is lost. -/
def meanwhile : List Event :=
  [.operation .step (6 : Nat), .write (0x303 : Nat) (7 : Nat),
    .edit fun m => { m with v := Vector.replicate 16 0 }]

/-- Both are back after the load. -/
theorem saved_registers_come_back_cleared :
    ∃ stored after, storing.step 3 = (stored, .ok (.store 2)) ∧
      (stored.meetAll meanwhile).reg 0 = 0 ∧ (stored.meetAll meanwhile).reg 1 = 0 ∧
      (stored.meetAll meanwhile).step 9 = (after, .ok (.load 1)) ∧
      after.reg 0 = 1 ∧ after.reg 1 = 17 := by
  have seen : storing.pc = (0x200 : Nat) ∧
      Instruction.decode (storing.memory.wordAt 0x200) = some (.store 2) := by decide +kernel
  obtain ⟨stored, ok⟩ :=
    exists_step_stores (a := 0x300) 3 ⟨0x200, seen.1, by decide, seen.2⟩ rfl (by decide) (by decide)
  have left : stored = (storing.step 3).1 := by rw [ok]
  have seen' : (storing.step 3).1.pc = (0x202 : Nat) ∧
      Instruction.decode ((storing.step 3).1.memory.wordAt 0x202) = some (.loadByte 0 0) ∧
      ((storing.step 3).1.meetAll meanwhile).pc = (0x204 : Nat) ∧
      Instruction.decode (((storing.step 3).1.meetAll meanwhile).memory.wordAt 0x204) =
        some (.load 1) ∧
      ((storing.step 3).1.meetAll meanwhile).i = (0x300 : Nat) ∧
      ((storing.step 3).1.meetAll meanwhile).reg 0 = 0 ∧
      ((storing.step 3).1.meetAll meanwhile).reg 1 = 0 := by decide +kernel
  rw [← left] at seen'
  obtain ⟨atPc, found, atPc', found', index, cleared, lost⟩ := seen'
  obtain ⟨a, atIndex, -, -, -, recalled, -⟩ := saved_registers_come_back ok (by decide)
  obtain rfl : 0x300 = a := Rat.natCast_inj.mp atIndex
  have spared : stored.Spares 0x300 3 meanwhile := by
    refine ⟨?_, ?_, fun _ _ _ => id, trivial⟩
    · rintro place low high ⟨ins, upcoming, i, -, start, stop⟩
      have clears : stored.Upcoming (.loadByte 0 0) := ⟨0x202, atPc, by decide, found⟩
      rw [upcoming.unique clears] at stop
      exact absurd stop (Nat.not_lt_of_le start)
    · intro place low high same
      have other : (0x303 : Nat) = place.val := Rat.natCast_inj.mp same
      omega
  obtain ⟨after, loaded, restored, -⟩ :=
    recalled 2 rfl 1 (by decide) meanwhile 9 spared ⟨0x204, atPc', by decide, found'⟩ index
  exact ⟨stored, after, ok, cleared, lost, loaded, restored 0 (by decide), restored 1 (by decide)⟩

end Machine

end Chip8
