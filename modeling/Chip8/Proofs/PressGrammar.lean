/-
# Chip8.Proofs.PressGrammar -- which lists of presses are accepted

`Documented key atMs item` says what an item of a list should look like: a name of the key, one
at sign, and the text of a number that is neither blank nor negative.  But an item is split at
its at signs without a look at the number of parts, and a blank text reads as zero.  So two more
kinds of items are accepted: those without a time (`Untimed`), and those that go on behind
another at sign (`Surplus`).

There are no others (`press_eq_ok_iff`).  A text names a key as documented or not at all
(`keyOfText_eq_some_iff`), an item is split at its first two at signs (`parts_cases`), and what
stands between them is the text of a time or blank (`timed_iff`).  So a list that has any other
item is refused (`read_refuses_other_items`), and one with an item of the latter two kinds may
slip through (`read_accepts_surplus`).
-/
import Chip8.Proofs.PressText

set_option autoImplicit false

namespace Chip8

namespace Numeral

/-! ## Digits -/

theorem toNat_lt_of_digitValue? {c : Char} {d : Nat} (value : digitValue? c = some d) :
    c.toNat < 128 := by
  unfold digitValue? at value
  split at value
  · have digit := Char.isDigit_iff_toNat.mp ‹_›
    have nine : '9'.toNat = 57 := rfl
    omega
  split at value
  · have small : c.toNat ≤ 'f'.toNat := Char.le_def.mp (And.right ‹_›)
    have end' : 'f'.toNat = 102 := rfl
    omega
  split at value
  · have small : c.toNat ≤ 'F'.toNat := Char.le_def.mp (And.right ‹_›)
    have end' : 'F'.toNat = 70 := rfl
    omega
  · cases value

/-- A base-16 digit is a small letter or a capital, where it is a letter. -/
theorem eq_of_digitValue? {c : Char} {d : Nat} (value : digitValue? c = some d) :
    c = Nat.digitChar d ∨ c = Hexadecimal.capital d := by
  have each : ∀ n < 128, ∀ d ∈ digitValue? (Char.ofNat n),
      Char.ofNat n = Nat.digitChar d ∨ Char.ofNat n = Hexadecimal.capital d := by
    decide
  have here := each c.toNat (toNat_lt_of_digitValue? value) d
  rw [Char.ofNat_toNat] at here
  exact here value

theorem read_of_blank {text : List Char} (blank : Blank text) : read text = some 0 := by
  rw [read, trim_eq_nil_iff.mpr blank]

end Numeral

namespace PressList

/-! ## Names of keys -/

/-- A name of a key with blanks around it. -/
def NamesKey (key : Fin 16) (name : List Char) : Prop :=
  ∃ before text after, Blank before ∧ KeyText key text ∧ Blank after ∧
    name = before ++ text ++ after

theorem keyText_of_keyOfDigit {c : Char} {key : Fin 16} (named : Keypad.keyOfDigit c = some key) :
    KeyText key [c] := by
  rw [Keypad.keyOfDigit] at named
  split at named
  · rename_i d value
    split at named
    · rename_i below
      cases named
      rcases Numeral.eq_of_digitValue? value with rfl | rfl
      · exact @KeyText.lower ⟨d, below⟩
      · exact @KeyText.upper ⟨d, below⟩
    · cases named
  · cases named

theorem keyText_of_keyOfName {name : List Char} {key : Fin 16}
    (named : Keypad.keyOfName (String.ofList name) = some key) : KeyText key name := by
  have same : Keypad.nameOfKey key = String.ofList name := by
    simpa using List.find?_some named
  have letters : name = (Keypad.nameOfKey key).toList := by
    rw [same, String.toList_ofList]
  rw [letters]
  exact .keyboard

/-- **A text names a key if and only if it is one of its names with blanks around it.** -/
theorem keyOfText_eq_some_iff {name : List Char} {key : Fin 16} :
    Keypad.keyOfText name = some key ↔ NamesKey key name := by
  constructor
  · intro named
    obtain ⟨before, after, left, right, same⟩ := exists_surrounded_trim name
    refine ⟨before, trim name, after, left, ?_, right, same⟩
    simp only [Keypad.keyOfText] at named
    split at named
    · rename_i c single
      rw [single]
      exact keyText_of_keyOfDigit named
    · exact keyText_of_keyOfName named
  · rintro ⟨before, text, after, left, names, right, rfl⟩
    rw [keyOfText_surrounded text left right]
    exact names.spec.2

theorem NamesKey.sign_notMem {key : Fin 16} {name : List Char} (names : NamesKey key name) :
    '@' ∉ name := by
  obtain ⟨before, text, after, left, names, right, rfl⟩ := names
  exact (((whole_of_blank left).append names.spec.1).append (whole_of_blank right)).sign_notMem

/-! ## Kinds of items -/

/-- The text of a number that is neither blank nor negative. -/
structure TimeText (atMs : Rat) (time : List Char) : Prop where
  visible : ¬ Blank time
  number : Numeral.read time = some atMs
  nonneg : 0 ≤ atMs

section Kinds

variable (key : Fin 16) (atMs : Rat) (item : List Char)

/-- A name of a key, one at sign, and the text of a time. -/
def Documented : Prop :=
  ∃ name time, item = name ++ ['@'] ++ time ∧ NamesKey key name ∧ '@' ∉ time ∧ TimeText atMs time

/-- A name of a key, one at sign, and no time. -/
def Untimed : Prop :=
  atMs = 0 ∧ ∃ name time, item = name ++ ['@'] ++ time ∧ NamesKey key name ∧ Blank time

/-- An item of one of these kinds that goes on behind another at sign. -/
def Surplus : Prop :=
  ∃ front rest, item = front ++ ['@'] ++ rest ∧ (Documented key atMs front ∨ Untimed key atMs front)

/-- A name of a key, one at sign, and a text that reads as a number which is not negative. -/
def Timed : Prop :=
  ∃ name time, item = name ++ ['@'] ++ time ∧ NamesKey key name ∧ '@' ∉ time ∧
    Numeral.read time = some atMs ∧ 0 ≤ atMs

end Kinds

section Items

variable {key : Fin 16} {atMs : Rat} {item : List Char}

theorem timed_iff : Timed key atMs item ↔ Documented key atMs item ∨ Untimed key atMs item := by
  constructor
  · rintro ⟨name, time, same, names, single, number, nonneg⟩
    by_cases blank : Blank time
    · rw [Numeral.read_of_blank blank] at number
      exact .inr ⟨(Option.some.inj number).symm, name, time, same, names, blank⟩
    · exact .inl ⟨name, time, same, names, single, blank, number, nonneg⟩
  · rintro (⟨name, time, same, names, single, -, number, nonneg⟩ |
      ⟨rfl, name, time, same, names, blank⟩)
    · exact ⟨name, time, same, names, single, number, nonneg⟩
    · exact ⟨name, time, same, names, (whole_of_blank blank).sign_notMem,
        Numeral.read_of_blank blank, le_rfl⟩

/-! ## Splitting an item -/

/-- What stands behind a second at sign is not seen. -/
theorem parts_surplus {name time : List Char} (first : '@' ∉ name) (second : '@' ∉ time)
    (rest : List Char) : parts (name ++ ['@'] ++ time ++ ['@'] ++ rest) = (name, some time) := by
  have pieces : (name ++ ['@'] ++ time ++ ['@'] ++ rest).splitOn '@' =
      name :: time :: rest.splitOn '@' := by
    simp [List.splitOn_append_cons_self_of_not_mem first,
      List.splitOn_append_cons_self_of_not_mem second]
  rw [parts, pieces]

/-- **An item has no at sign, or one, or it goes on behind a second.** -/
theorem parts_cases (item : List Char) :
    parts item = (item, none) ∨ ∃ name time, '@' ∉ time ∧ parts item = (name, some time) ∧
      (item = name ++ ['@'] ++ time ∨ ∃ rest, item = name ++ ['@'] ++ time ++ ['@'] ++ rest) := by
  by_cases sign : '@' ∈ item
  · obtain ⟨name, behind, rfl, first⟩ := List.eq_append_cons_of_mem sign
    right
    by_cases again : '@' ∈ behind
    · obtain ⟨time, rest, rfl, second⟩ := List.eq_append_cons_of_mem again
      have same : name ++ '@' :: (time ++ '@' :: rest) =
          name ++ ['@'] ++ time ++ ['@'] ++ rest := by simp
      exact ⟨name, time, second, same ▸ parts_surplus first second rest, .inr ⟨rest, same⟩⟩
    · have same : name ++ '@' :: behind = name ++ ['@'] ++ behind := by simp
      exact ⟨name, behind, again, same ▸ parts_timed first again, .inl same⟩
  · left
    rw [parts, List.splitOn_eq_singleton sign]

/-- The press of an item with a time. -/
theorem press_of_parts {name time : List Char} {p : Press}
    (split : parts item = (name, some time)) :
    press item = .ok p ↔ ∃ key atMs, p = { key := ((key : Fin 16).val : Rat), atMs } ∧
      NamesKey key name ∧ Numeral.read time = some atMs ∧ 0 ≤ atMs := by
  simp only [press, split, ← keyOfText_eq_some_iff]
  cases named : Keypad.keyOfText name with
  | none => simp
  | some key =>
    cases number : Numeral.read time with
    | none => simp [number]
    | some atMs =>
      by_cases early : atMs < 0
      · simp [number, early, not_le.mpr early]
      · simp [number, early, not_lt.mp early, eq_comm]

/-- An item without an at sign has no time. -/
theorem press_of_uncut (uncut : parts item = (item, none)) (p : Press) : press item ≠ .ok p := by
  rw [press, uncut]
  cases named : Keypad.keyOfText item <;> simp [named]

/-- **The items that are accepted**, and what they are read as: those that are documented, those
without a time, which counts as zero, and those of either kind that go on. -/
theorem press_eq_ok_iff {p : Press} :
    press item = .ok p ↔ ∃ key atMs, p = { key := ((key : Fin 16).val : Rat), atMs } ∧
      (Documented key atMs item ∨ Untimed key atMs item ∨ Surplus key atMs item) := by
  simp only [Surplus, ← or_assoc, ← timed_iff]
  constructor
  · intro accepted
    rcases parts_cases item with uncut | ⟨name, time, single, split, shape⟩
    · exact absurd accepted (press_of_uncut uncut p)
    · obtain ⟨key, atMs, same, names, number, nonneg⟩ := (press_of_parts split).mp accepted
      refine ⟨key, atMs, same, ?_⟩
      rcases shape with rfl | ⟨rest, rfl⟩
      · exact .inl ⟨name, time, rfl, names, single, number, nonneg⟩
      · exact .inr ⟨_, rest, rfl, name, time, rfl, names, single, number, nonneg⟩
  · rintro ⟨key, atMs, rfl, ⟨name, time, rfl, names, single, number, nonneg⟩ |
      ⟨_, rest, rfl, name, time, rfl, names, single, number, nonneg⟩⟩
    · exact (press_of_parts (parts_timed names.sign_notMem single)).mpr
        ⟨key, atMs, rfl, names, number, nonneg⟩
    · exact (press_of_parts (parts_surplus names.sign_notMem single rest)).mpr
        ⟨key, atMs, rfl, names, number, nonneg⟩

end Items

/-! ## Lists -/

theorem accepted_of_forall₂ {texts : List (List Char)} {presses : List Press}
    (each : List.Forall₂ (fun item p => press item = .ok p) texts presses) :
    ∀ item ∈ texts, ∃ p, press item = .ok p := by
  induction each with
  | nil => simp
  | cons here _ ih => exact List.forall_mem_cons.mpr ⟨⟨_, here⟩, ih⟩

/-- A list is accepted if all of its items are. -/
theorem exists_read_eq_ok_iff {text : String} :
    (∃ order, read text = .ok order) ↔
      ∀ item ∈ text.toList.splitOn ',', ¬ Blank item → ∃ p, press item = .ok p := by
  constructor
  · rintro ⟨order, accepted⟩ item listed visible
    obtain ⟨presses, each, -⟩ := read_eq_ok_iff.mp accepted
    apply accepted_of_forall₂ each
    simp [items_eq, listed, visible]
  · intro each
    cases outcome : read text with
    | ok order => exact ⟨order, rfl⟩
    | error e =>
      obtain ⟨item, member, failed⟩ := exists_of_read_eq_error outcome
      simp only [items_eq, List.mem_filter, decide_eq_true_eq] at member
      obtain ⟨p, accepted⟩ := each item member.1 member.2
      rw [failed] at accepted
      cases accepted

/-- **A list is accepted if and only if each item that is not blank is of one of three kinds**: as
documented, with one at sign, a name of a key before it and the text of a number that is not
negative behind it; without the time, which counts as zero; or either of these with a further at
sign and anything behind that, which does not count.  The presses are those of the items in their
stable order.  If an item is of none of these kinds, the list is refused with the error of an
item, and no press is read. -/
theorem read_refuses_other_items (text : String) :
    (∀ order, read text = .ok order ↔ ∃ presses,
      List.Forall₂ (fun item p => ∃ key atMs, p = { key := ((key : Fin 16).val : Rat), atMs } ∧
          (Documented key atMs item ∨ Untimed key atMs item ∨ Surplus key atMs item))
        ((text.toList.splitOn ',').filter fun item => decide ¬ Blank item) presses ∧
      order = Press.sorted presses) ∧
    ((∃ order, read text = .ok order) ↔
      ∀ item ∈ text.toList.splitOn ',', ¬ Blank item → ∃ key atMs,
        Documented key atMs item ∨ Untimed key atMs item ∨ Surplus key atMs item) ∧
    ∀ item ∈ text.toList.splitOn ',', ¬ Blank item →
      (∀ key atMs,
        ¬ Documented key atMs item ∧ ¬ Untimed key atMs item ∧ ¬ Surplus key atMs item) →
      ∃ e, read text = .error e ∧
        ∃ bad ∈ text.toList.splitOn ',', ¬ Blank bad ∧ press bad = .error e := by
  have kinds : ∀ item, (∃ p, press item = .ok p) ↔ ∃ key atMs,
      Documented key atMs item ∨ Untimed key atMs item ∨ Surplus key atMs item := by
    intro item
    constructor
    · rintro ⟨p, accepted⟩
      obtain ⟨key, atMs, -, kind⟩ := press_eq_ok_iff.mp accepted
      exact ⟨key, atMs, kind⟩
    · rintro ⟨key, atMs, kind⟩
      exact ⟨_, press_eq_ok_iff.mpr ⟨key, atMs, rfl, kind⟩⟩
  refine ⟨?_, ?_, ?_⟩
  · intro order
    simp only [read_eq_ok_iff, items_eq, press_eq_ok_iff]
  · simp only [exists_read_eq_ok_iff, kinds]
  · intro item listed visible none
    cases outcome : read text with
    | ok order =>
      obtain ⟨key, atMs, kind⟩ :=
        (kinds item).mp (exists_read_eq_ok_iff.mp ⟨order, outcome⟩ item listed visible)
      obtain ⟨other, timed, ends⟩ := none key atMs
      rcases kind with kind | kind | kind
      · exact absurd kind other
      · exact absurd kind timed
      · exact absurd kind ends
    | error e =>
      obtain ⟨bad, member, failed⟩ := exists_of_read_eq_error outcome
      simp only [items_eq, List.mem_filter, decide_eq_true_eq] at member
      exact ⟨e, rfl, bad, member.1, member.2, failed⟩

/-- A list whose second item names no key is refused, and one of two documented items and a blank
one is accepted. -/
theorem read_refuses_other_items_unknownKey :
    " G@7".toList ∈ "5@100, G@7".toList.splitOn ',' ∧ ¬ Blank " G@7".toList ∧
      (∃ e, read "5@100, G@7" = .error e) ∧ ∃ order, read "5@100, ,KeyQ@0x10 " = .ok order := by
  have listed : " G@7".toList ∈ "5@100, G@7".toList.splitOn ',' := by decide +kernel
  have visible : ¬ Blank " G@7".toList := by decide +kernel
  obtain ⟨-, -, refused⟩ := read_refuses_other_items "5@100, G@7"
  obtain ⟨-, accepted, -⟩ := read_refuses_other_items "5@100, ,KeyQ@0x10 "
  refine ⟨listed, visible, ?_, ?_⟩
  · have unknown : press " G@7".toList = .error (.unknownKey " G") := by decide +kernel
    obtain ⟨e, failed, -⟩ := refused _ listed visible (by
      intro key atMs
      have other : ¬ (Documented key atMs " G@7".toList ∨ Untimed key atMs " G@7".toList ∨
          Surplus key atMs " G@7".toList) := by
        intro kind
        have found := press_eq_ok_iff.mpr ⟨key, atMs, rfl, kind⟩
        rw [unknown] at found
        cases found
      simpa [not_or] using other)
    exact ⟨e, failed⟩
  · have pieces : "5@100, ,KeyQ@0x10 ".toList.splitOn ',' =
        [['5'] ++ ['@'] ++ ['1', '0', '0'], [' '],
          (Keypad.nameOfKey 4).toList ++ ['@'] ++ ['0', 'x', '1', '0', ' ']] := by
      decide +kernel
    have nothing : Blank [] := by decide
    rw [accepted, pieces]
    intro item member shown
    simp only [List.mem_cons, List.not_mem_nil, or_false] at member
    rcases member with rfl | rfl | rfl
    · exact ⟨5, 100, .inl ⟨_, _, rfl, ⟨[], _, [], nothing, .lower, nothing, rfl⟩, by decide,
        by decide, by decide +kernel, by decide⟩⟩
    · exact absurd (by decide) shown
    · exact ⟨4, 16, .inl ⟨_, _, rfl, ⟨[], _, [], nothing, .keyboard, nothing, by simp⟩, by decide,
        by decide, by decide +kernel, by decide⟩⟩

/-- An item with a surplus part is read without it, and one without a time as a press at the
start, though neither is as documented. -/
theorem read_accepts_surplus :
    (read "5@100@7" = .ok [{ key := 5, atMs := 100 }] ∧
      "5@100@7".toList ∈ "5@100@7".toList.splitOn ',' ∧ ¬ Blank "5@100@7".toList ∧
      ∀ key atMs, ¬ Documented key atMs "5@100@7".toList) ∧
    read "5@" = .ok [{ key := 5, atMs := 0 }] ∧
      "5@".toList ∈ "5@".toList.splitOn ',' ∧ ¬ Blank "5@".toList ∧
      ∀ key atMs, ¬ Documented key atMs "5@".toList := by
  refine ⟨⟨by decide +kernel, by decide +kernel, by decide +kernel, ?_⟩, by decide +kernel,
    by decide +kernel, by decide +kernel, ?_⟩
  · rintro key atMs ⟨name, time, same, names, single, -⟩
    have split := parts_timed names.sign_notMem single
    have seen : parts "5@100@7".toList = (['5'], some ['1', '0', '0']) := by decide +kernel
    rw [← same, seen] at split
    cases split
    revert same
    decide +kernel
  · rintro key atMs ⟨name, time, same, names, single, timed⟩
    have split := parts_timed names.sign_notMem single
    have seen : parts "5@".toList = (['5'], some []) := by decide +kernel
    rw [← same, seen] at split
    cases split
    exact timed.visible (by decide)

end PressList

end Chip8
