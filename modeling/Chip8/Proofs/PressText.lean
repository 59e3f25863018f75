/-
# Chip8.Proofs.PressText -- a list of presses is read back from its text

`Listed presses items` says how a list of presses may be written: one item `KEY@MS` for each,
with the key named in one of three ways (`KeyText`), the time in decimal digits, blanks around
both, and blank items anywhere.  None of the parts holds a comma or an at sign (`Whole`), so
splitting the text gives the items back and splitting an item its parts
(`press_of_itemText`).  The presses come out in their stable order.

The other way, any item stands for a well-formed press or is refused for its key or its time
(`press_spec`).  So whatever the text is, what is read are well-formed presses, one for each item
that is not blank (`read_spec`).
-/
import Chip8.Options.PressList
import Chip8.Proofs.DigitText
import Chip8.Proofs.NumeralText
import Chip8.Proofs.PressOrder

set_option autoImplicit false

namespace Chip8

/-- The press of a key at a whole number of milliseconds. -/
def Press.whole (press : Fin 16 × Nat) : Press :=
  { key := (press.1.val : Rat), atMs := (press.2 : Rat) }

/-- A press of one of the sixteen keys at a finite time that is not negative. -/
structure Press.WellFormed (p : Press) : Prop where
  key : ∃ key : Fin 16, p.key = (key.val : Rat)
  nonneg : 0 ≤ p.atMs
  finite : Binary64.beyondRange p.atMs = false

namespace PressList

open Numeral (IsDecimal isDecimal_toDigits)

/-! ## Written presses -/

/-- A name of a key: its base-16 digit in either case or its keyboard name. -/
inductive KeyText (key : Fin 16) : List Char → Prop
  | lower : KeyText key [Nat.digitChar key]
  | upper : KeyText key [Hexadecimal.capital key]
  | keyboard : KeyText key (Keypad.nameOfKey key).toList

/-- An item for the press of a key: its name, an at sign and the time, blanks around both. -/
inductive ItemText : Fin 16 × Nat → List Char → Prop
  | written {key : Fin 16} {ms : Nat} {name digits before after before' after' : List Char} :
      KeyText key name → IsDecimal digits ms → Blank before → Blank after → Blank before' →
      Blank after' →
      ItemText (key, ms) (before ++ name ++ after ++ ['@'] ++ (before' ++ digits ++ after'))

/-- Items for some presses, with blank ones in between. -/
inductive Listed : List (Fin 16 × Nat) → List (List Char) → Prop
  | nil : Listed [] []
  | skip {presses : List (Fin 16 × Nat)} {item : List Char} {items : List (List Char)} :
      Blank item → Listed presses items → Listed presses (item :: items)
  | cons {p : Fin 16 × Nat} {presses : List (Fin 16 × Nat)} {item : List Char}
      {items : List (List Char)} :
      ItemText p item → Listed presses items → Listed (p :: presses) (item :: items)

/-! ## Parts without separators -/

/-- A text without the characters at which lists and items are split. -/
def Whole (text : List Char) : Prop := ∀ c ∈ text, c ≠ ',' ∧ c ≠ '@'

instance (text : List Char) : Decidable (Whole text) :=
  decidable_of_iff (text.all (fun c => c != ',' && c != '@') = true) (by simp [Whole])

theorem Whole.append {text other : List Char} (first : Whole text) (second : Whole other) :
    Whole (text ++ other) := by
  intro c member
  rcases List.mem_append.mp member with here | there
  · exact first c here
  · exact second c there

theorem whole_of_all {text : List Char} {kind : Char → Bool} (all : ∀ c ∈ text, kind c = true)
    (comma : kind ',' = false) (sign : kind '@' = false) : Whole text := by
  intro c member
  have here := all c member
  constructor
  · rintro rfl
    rw [comma] at here
    cases here
  · rintro rfl
    rw [sign] at here
    cases here

theorem whole_of_blank {text : List Char} (blank : Blank text) : Whole text :=
  whole_of_all blank (by decide) (by decide)

theorem whole_of_isDecimal {digits : List Char} {n : Nat} (decimal : IsDecimal digits n) :
    Whole digits :=
  whole_of_all decimal.digit (by decide) (by decide)

/-! ## One item -/

theorem KeyText.spec {key : Fin 16} {name : List Char} (names : KeyText key name) :
    Whole name ∧ Keypad.keyOfText name = some key := by
  cases names with
  | lower =>
    revert key
    decide
  | upper =>
    revert key
    decide
  | keyboard =>
    revert key
    decide +kernel

theorem keyOfText_surrounded {before after : List Char} (name : List Char) (left : Blank before)
    (right : Blank after) :
    Keypad.keyOfText (before ++ name ++ after) = Keypad.keyOfText name := by
  rw [Keypad.keyOfText, Keypad.keyOfText, trim_surrounded name left right]

theorem Whole.sign_notMem {text : List Char} (whole : Whole text) : '@' ∉ text := by
  intro sign
  exact (whole '@' sign).2 rfl

/-- An item with one at sign is split there. -/
theorem parts_timed {name time : List Char} (first : '@' ∉ name) (second : '@' ∉ time) :
    parts (name ++ ['@'] ++ time) = (name, some time) := by
  have pieces : (name ++ ['@'] ++ time).splitOn '@' = [name, time] := by
    rw [List.append_assoc, List.singleton_append,
      List.splitOn_append_cons_self_of_not_mem first, List.splitOn_eq_singleton second]
  rw [parts, pieces]

/-- What an item is split into. -/
theorem ItemText.spec {p : Fin 16 × Nat} {item : List Char} (written : ItemText p item) :
    ∃ name time, parts item = (name, some time) ∧ Keypad.keyOfText name = some p.1 ∧
      (p.2 ≤ Binary64.exactLimit → Numeral.read time = some (p.2 : Rat)) ∧
      ',' ∉ item ∧ ¬ Blank item := by
  obtain @⟨key, ms, name, digits, before, after, before', after', names, decimal, left, right,
    left', right'⟩ := written
  obtain ⟨whole, key⟩ := names.spec
  have first : Whole (before ++ name ++ after) :=
    ((whole_of_blank left).append whole).append (whole_of_blank right)
  have second : Whole (before' ++ digits ++ after') :=
    ((whole_of_blank left').append (whole_of_isDecimal decimal)).append (whole_of_blank right')
  refine ⟨_, _, parts_timed first.sign_notMem second.sign_notMem, ?_, ?_, ?_, ?_⟩
  · rw [keyOfText_surrounded name left right, key]
  · intro small
    rw [Numeral.read_surrounded digits left' right', Numeral.read_of_isDecimal decimal small]
  · intro comma
    rw [List.mem_append, List.mem_append] at comma
    rcases comma with (here | sign) | there
    · exact (first ',' here).1 rfl
    · revert sign
      decide
    · exact (second ',' there).1 rfl
  · intro blank
    have sign : isBlank '@' = true := blank '@' (by simp)
    revert sign
    decide

/-- **An item is read back as the press that it was written for.** -/
theorem press_of_itemText {p : Fin 16 × Nat} {item : List Char} (written : ItemText p item)
    (small : p.2 ≤ Binary64.exactLimit) : press item = .ok (Press.whole p) := by
  obtain ⟨name, time, split, key, value, -, -⟩ := written.spec
  have nonneg : ¬ (p.2 : Rat) < 0 := not_lt.mpr (Nat.cast_nonneg _)
  rw [press, split]
  simp only [key, Option.bind_some, value small, if_neg nonneg]
  rfl

/-- **What any item stands for**: a well-formed press, unless it names a key that does not exist,
or has no time or one before zero. -/
theorem press_spec (item : List Char) :
    match press item with
    | .ok p => p.WellFormed
    | .error e =>
      (Keypad.keyOfText (parts item).1 = none ∧
        e = .unknownKey (String.ofList (parts item).1)) ∨
      ((∀ q, (parts item).2.bind Numeral.read = some q → q < 0) ∧
        e = .badTime (String.ofList item)) := by
  rw [press]
  generalize parts item = halves
  obtain ⟨name, time⟩ := halves
  cases named : Keypad.keyOfText name with
  | none => simp [named]
  | some key =>
    cases timed : time.bind Numeral.read with
    | none => simp [named, timed]
    | some atMs =>
      by_cases early : atMs < 0
      · simp [named, timed, early]
      · obtain ⟨text, -, numeral⟩ := Option.bind_eq_some_iff.mp timed
        simp only [named, timed, if_neg early]
        exact ⟨⟨key, rfl⟩, not_lt.mp early, Numeral.finite_of_read numeral⟩

/-! ## Lists -/

/-- A list is read item by item. -/
theorem mapM_eq_ok_iff {ε α β : Type} (f : α → Except ε β) (items : List α) (results : List β) :
    items.mapM f = .ok results ↔ List.Forall₂ (fun item result => f item = .ok result)
      items results := by
  induction items generalizing results with
  | nil => cases results <;> simp [pure, Except.pure]
  | cons item rest ih =>
    rw [List.mapM_cons]
    cases here : f item with
    | error e => cases results <;> simp [bind, Except.bind, here]
    | ok result =>
      cases later : rest.mapM f with
      | error e => cases results <;> simp [bind, Except.bind, here, later, ← ih]
      | ok others =>
        cases results <;> simp [bind, Except.bind, pure, Except.pure, here, later, ← ih]

/-- An error is that of an item. -/
theorem exists_of_mapM_eq_error {ε α β : Type} (f : α → Except ε β) {items : List α} {e : ε}
    (failed : items.mapM f = .error e) : ∃ item ∈ items, f item = .error e := by
  induction items with
  | nil => cases failed
  | cons item rest ih =>
    rw [List.mapM_cons] at failed
    cases here : f item with
    | error e' =>
      rw [here] at failed
      cases failed
      exact ⟨item, List.mem_cons_self, here⟩
    | ok result =>
      rw [here] at failed
      cases later : rest.mapM f with
      | ok results =>
        rw [later] at failed
        cases failed
      | error e' =>
        rw [later] at failed
        cases failed
        obtain ⟨other, member, there⟩ := ih later
        exact ⟨other, List.mem_cons_of_mem _ member, there⟩

theorem items_eq (text : List Char) :
    items text = (text.splitOn ',').filter fun item => decide ¬ Blank item := by
  rw [items]
  congr 1
  funext item
  rw [Bool.eq_iff_iff]
  simp [← trim_eq_nil_iff]

theorem read_eq_ok_iff {text : String} {order : List Press} :
    read text = .ok order ↔ ∃ presses,
      List.Forall₂ (fun item p => press item = .ok p) (items text.toList) presses ∧
        order = Press.sorted presses := by
  simp only [read, ← mapM_eq_ok_iff]
  cases (items text.toList).mapM press with
  | error e => simp [Except.map]
  | ok presses => simp [Except.map, eq_comm]

theorem exists_of_read_eq_error {text : String} {e : PressError} (failed : read text = .error e) :
    ∃ item ∈ items text.toList, press item = .error e := by
  rw [read] at failed
  cases each : (items text.toList).mapM press with
  | error e' =>
    rw [each] at failed
    cases failed
    exact exists_of_mapM_eq_error press each
  | ok presses =>
    rw [each] at failed
    cases failed

/-- The items of a list, once the blank ones are left out, are read back one by one. -/
theorem forall₂_of_listed {presses : List (Fin 16 × Nat)} {texts : List (List Char)}
    (listed : Listed presses texts) (small : ∀ p ∈ presses, p.2 ≤ Binary64.exactLimit) :
    List.Forall₂ (fun item p => press item = .ok p)
      (texts.filter fun item => decide ¬ Blank item) (presses.map Press.whole) := by
  induction listed with
  | nil => exact .nil
  | skip blank _ ih =>
    rw [List.filter_cons_of_neg (by simpa using blank)]
    exact ih small
  | cons written _ ih =>
    obtain ⟨-, -, -, -, -, -, visible⟩ := written.spec
    rw [List.filter_cons_of_pos (by simpa using visible), List.map_cons]
    refine .cons (press_of_itemText written (small _ List.mem_cons_self)) (ih ?_)
    intro p member
    exact small p (List.mem_cons_of_mem _ member)

theorem comma_notMem_of_listed {presses : List (Fin 16 × Nat)} {texts : List (List Char)}
    (listed : Listed presses texts) : ∀ text ∈ texts, ',' ∉ text := by
  induction listed with
  | nil => simp
  | skip blank _ ih =>
    refine List.forall_mem_cons.mpr ⟨?_, ih⟩
    intro comma
    exact (whole_of_blank blank ',' comma).1 rfl
  | cons written _ ih =>
    obtain ⟨-, -, -, -, -, whole, -⟩ := written.spec
    exact List.forall_mem_cons.mpr ⟨whole, ih⟩

/-- **A written list of presses is read back in the order of the times.** -/
theorem read_of_listed {presses : List (Fin 16 × Nat)} {texts : List (List Char)}
    (listed : Listed presses texts) (small : ∀ p ∈ presses, p.2 ≤ Binary64.exactLimit) :
    read (String.ofList ([','].intercalate texts)) =
      .ok (Press.sorted (presses.map Press.whole)) := by
  refine read_eq_ok_iff.mpr ⟨_, ?_, rfl⟩
  rw [items_eq, String.toList_ofList]
  cases texts with
  | nil =>
    -- no item at all is written as a single blank one
    cases listed
    exact .nil
  | cons text rest =>
    rw [List.splitOn_intercalate ',' (comma_notMem_of_listed listed) (List.cons_ne_nil _ _)]
    exact forall₂_of_listed listed small

theorem wellFormed_of_forall₂ {texts : List (List Char)} {presses : List Press}
    (each : List.Forall₂ (fun item p => press item = .ok p) texts presses) :
    ∀ p ∈ presses, p.WellFormed := by
  induction each with
  | nil => simp
  | @cons item p _ _ here _ ih =>
    have spec := press_spec item
    rw [here] at spec
    exact List.forall_mem_cons.mpr ⟨spec, ih⟩

/-- **Whatever is read is well-formed and in the order of the times**, one press for each item
that is not blank. -/
theorem read_spec {text : String} {order : List Press} (read : read text = .ok order) :
    (∀ p ∈ order, p.WellFormed) ∧ (order.Pairwise fun p q => p.atMs ≤ q.atMs) ∧
      order.length = (text.toList.splitOn ',').countP fun item => decide ¬ Blank item := by
  obtain ⟨presses, each, rfl⟩ := read_eq_ok_iff.mp read
  refine ⟨?_, Press.sorted_ordered presses, ?_⟩
  · intro p member
    exact wellFormed_of_forall₂ each p ((Press.sorted_perm presses).mem_iff.mp member)
  · rw [(Press.sorted_perm presses).length_eq, ← each.length_eq, items_eq,
      List.countP_eq_length_filter]

/-- **A list of presses and its text.**  Written in any of the permitted ways, presses of whole
times that double precision holds are read back as they are, in their stable order.  And from
any text at all only well-formed presses are read, in the order of their times, as many as
there are items that are not blank. -/
theorem press_list_round_trip :
    (∀ (presses : List (Fin 16 × Nat)) (texts : List (List Char)),
      (∀ p ∈ presses, p.2 ≤ Binary64.exactLimit) → Listed presses texts →
      ∃ order, read (String.ofList ([','].intercalate texts)) = .ok order ∧
        Press.StablySorted (presses.map Press.whole) order) ∧
    ∀ (text : String) (order : List Press), read text = .ok order →
      (∀ p ∈ order, p.WellFormed) ∧ (order.Pairwise fun p q => p.atMs ≤ q.atMs) ∧
        order.length = (text.toList.splitOn ',').countP fun item => decide ¬ Blank item := by
  constructor
  · intro presses texts small listed
    exact ⟨_, read_of_listed listed small, Press.stablySorted_sorted _⟩
  · intro text order
    exact read_spec

/-- Three presses, their keys named in the three ways, and two blank items. -/
def mixedItems : List (List Char) :=
  [[' ', 'K', 'e', 'y', 'X', '@', '\t', '0', '2', '0'], [], ['a', '@', '7', ' '], [' '],
    ['F', '@', '2', '0']]

theorem listed_mixedItems : Listed [(0, 20), (10, 7), (15, 20)] mixedItems := by
  have twenty : IsDecimal ['2', '0'] 20 := isDecimal_toDigits 20
  have padded : IsDecimal ['0', '2', '0'] 20 := ⟨by decide, by simp, by decide⟩
  have seven : IsDecimal ['7'] 7 := isDecimal_toDigits 7
  have space : Blank [' '] := by decide
  have tab : Blank ['\t'] := by decide
  have nothing : Blank [] := by decide
  refine .cons (.written .keyboard padded space nothing tab nothing) (.skip nothing ?_)
  refine .cons (.written .lower seven nothing nothing nothing space) (.skip space ?_)
  exact .cons (.written .upper twenty nothing nothing nothing nothing) .nil

/-- The press at 7 comes first, and the two at 20 as they were listed. -/
theorem press_list_round_trip_mixedItems :
    Listed [(0, 20), (10, 7), (15, 20)] mixedItems ∧
      ∃ order, read (String.ofList ([','].intercalate mixedItems)) = .ok order ∧
        order = [Press.whole (10, 7), Press.whole (0, 20), Press.whole (15, 20)] ∧
        ∀ p ∈ order, p.WellFormed := by
  obtain ⟨written, any⟩ := press_list_round_trip
  obtain ⟨order, same, sorted⟩ := written _ mixedItems (by decide) listed_mixedItems
  obtain ⟨formed, -, -⟩ := any _ order same
  refine ⟨listed_mixedItems, order, same, ?_, formed⟩
  apply sorted.unique
  refine ⟨List.Perm.swap _ _ _, by decide +kernel, ?_⟩
  intro time
  by_cases early : (7 : Rat) = time
  · subst early
    decide +kernel
  · simp [Press.whole, List.filter_cons, early]

end PressList

end Chip8
