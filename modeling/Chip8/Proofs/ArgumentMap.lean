/-
# Chip8.Proofs.ArgumentMap -- the last word on a key counts

An argument says something on at most one key (`said`).  The map of some arguments has on each
key the last thing said on it (`get?_ofList`); hence later arguments override earlier ones key
by key, and arguments without dashes may be left out.

Two dashes are followed by a key and a value (`Valued`) or by anything else (`Bare`), and what
an argument says depends only on which it is (`said_giving`, `said_bare`).
-/
import Chip8.Options.Arguments
import Mathlib.Data.List.Induction
import Mathlib.Data.List.TakeWhile

set_option autoImplicit false

namespace Chip8.Arguments

/-! ## What one argument says -/

/-- What an argument says on a key.  Nothing is said on the reserved one. -/
def said (key argument : String) : Option ArgumentValue :=
  match entry? argument.toList with
  | some (named, value) => if key = named ∧ named ≠ reservedKey then some value else none
  | none => none

theorem get?_add (a : Arguments) (argument key : String) :
    (a.add argument).get? key = (said key argument).or (a.get? key) := by
  unfold add said
  cases entry? argument.toList with
  | none => rfl
  | some entry =>
    obtain ⟨named, value⟩ := entry
    rw [get?_insert]
    by_cases reserved : named = reservedKey
    · simp [reserved]
    · by_cases same : key = named <;> simp [reserved, same]

theorem said_reservedKey (argument : String) : said reservedKey argument = none := by
  unfold said
  split
  · rename_i named value _
    rw [if_neg]
    rintro ⟨same, other⟩
    exact other same.symm
  · rfl

/-- An argument without two dashes in front says nothing. -/
theorem entry?_eq_none_iff {argument : List Char} :
    entry? argument = none ↔ ¬ ['-', '-'] <+: argument := by
  constructor
  · rintro nothing ⟨rest, rfl⟩
    simp only [List.cons_append, List.nil_append, entry?] at nothing
    split at nothing
    · split at nothing <;> cases nothing
    · cases nothing
  · intro plain
    unfold entry?
    split
    · rename_i rest
      exact absurd ⟨rest, rfl⟩ plain
    · rfl

/-! ## The two kinds of arguments with dashes -/

/-- A key and a value that an argument can give to it. -/
structure Valued (key value : String) : Prop where
  nonempty : key ≠ ""
  sign : '=' ∉ key.toList
  line : ∀ c ∈ value.toList, isLineEnd c = false

instance (key value : String) : Decidable (Valued key value) :=
  decidable_of_iff
    (key ≠ "" ∧ '=' ∉ key.toList ∧ value.toList.any isLineEnd = false)
    ⟨fun ⟨nonempty, sign, line⟩ => ⟨nonempty, sign, by simpa using line⟩,
      fun ⟨nonempty, sign, line⟩ => ⟨nonempty, sign, by simpa using line⟩⟩

/-- What follows the dashes of any other argument: there is no equals sign, or nothing before
the first one, or an end of a line behind it. -/
inductive Bare : String → Prop
  | unsigned {rest : String} : '=' ∉ rest.toList → Bare rest
  | unnamed {value : String} : Bare ("=" ++ value)
  | broken {key value : String} {c : Char} :
      '=' ∉ key.toList → c ∈ value.toList → isLineEnd c = true → Bare (key ++ "=" ++ value)

/-- The argument that gives a value to a key. -/
def giving (key value : String) : String := "--" ++ (key ++ "=" ++ value)

/-- The text of an argument around its first equals sign. -/
theorem split_at_sign {key : String} (sign : '=' ∉ key.toList) (value : String) :
    (key ++ "=" ++ value).toList.takeWhile (· != '=') = key.toList ∧
      (key ++ "=" ++ value).toList.dropWhile (· != '=') = '=' :: value.toList := by
  have before : ∀ c ∈ key.toList, (c != '=') = true := by
    intro c member
    simpa using fun same : c = '=' => sign (same ▸ member)
  have text : (key ++ "=" ++ value).toList = key.toList ++ '=' :: value.toList := by simp
  rw [text, List.takeWhile_append_of_pos before, List.dropWhile_append_of_pos before]
  simp

theorem entry?_of_valued {key value : String} (valued : Valued key value) :
    entry? (giving key value).toList = some (key, .text value) := by
  obtain ⟨before, behind⟩ := split_at_sign valued.sign value
  have text : (giving key value).toList = '-' :: '-' :: (key ++ "=" ++ value).toList := by
    simp [giving]
  have line : value.toList.any isLineEnd = false := by
    rw [List.any_eq_false]
    intro c member
    simp [valued.line c member]
  rw [text, entry?, before, behind]
  simp [line, valued.nonempty]

theorem entry?_of_bare {rest : String} (bare : Bare rest) :
    entry? ("--" ++ rest).toList = some (rest, .bare) := by
  have text : ("--" ++ rest).toList = '-' :: '-' :: rest.toList := by simp
  rw [text, entry?, String.ofList_toList]
  cases bare with
  | unsigned sign =>
    have none : rest.toList.dropWhile (· != '=') = [] := by
      rw [List.dropWhile_eq_nil_iff]
      intro c member
      simpa using fun same : c = '=' => sign (same ▸ member)
    simp [none]
  | @unnamed value =>
    have first : ("=" ++ value).toList = '=' :: value.toList := by simp
    simp [first]
  | @broken key value c sign member ends =>
    obtain ⟨-, behind⟩ := split_at_sign sign value
    have line : value.toList.any isLineEnd = true := List.any_eq_true.mpr ⟨c, member, ends⟩
    simp only [behind, line, Bool.or_true, if_true]

/-- **Whatever follows two dashes is of one kind or the other**, and not of both. -/
theorem bare_iff {rest : String} :
    Bare rest ↔ ¬ ∃ key value, rest = key ++ "=" ++ value ∧ Valued key value := by
  constructor
  · rintro bare ⟨key, value, rfl, valued⟩
    have entry := entry?_of_valued valued
    rw [giving, entry?_of_bare bare] at entry
    simp at entry
  · intro other
    by_cases sign : '=' ∈ rest.toList
    · obtain ⟨before, behind, text, first⟩ := List.eq_append_cons_of_mem sign
      obtain ⟨key, rfl⟩ : ∃ key : String, before = key.toList := ⟨String.ofList before, by simp⟩
      obtain ⟨value, rfl⟩ : ∃ value : String, behind = value.toList :=
        ⟨String.ofList behind, by simp⟩
      have joined : rest = key ++ "=" ++ value := by
        rw [← String.toList_inj, text]
        simp
      rw [joined]
      rcases eq_or_ne key "" with rfl | nonempty
      · exact .unnamed
      by_cases line : ∃ c ∈ value.toList, isLineEnd c = true
      · obtain ⟨c, member, ends⟩ := line
        exact .broken first member ends
      · have clear : ∀ c ∈ value.toList, isLineEnd c = false := by simpa using line
        exact absurd ⟨key, value, joined, nonempty, first, clear⟩ other
    · exact .unsigned sign

/-! ## What many arguments say -/

theorem get?_foldl_add (a : Arguments) (arguments : List String) (key : String) :
    (arguments.foldl add a).get? key =
      (arguments.reverse.findSome? (said key)).or (a.get? key) := by
  induction arguments generalizing a with
  | nil => rfl
  | cons argument rest ih =>
    rw [List.foldl_cons, ih, get?_add, List.reverse_cons, List.findSome?_append, Option.or_assoc]
    simp

/-- **The map has on a key the last thing said on it.** -/
theorem get?_ofList (arguments : List String) (key : String) :
    (ofList arguments).get? key = arguments.reverse.findSome? (said key) := by
  rw [ofList, get?_foldl_add]
  exact Option.or_none

theorem get?_ofList_append (a b : List String) (key : String) :
    (ofList (a ++ b)).get? key = ((ofList b).get? key).or ((ofList a).get? key) := by
  rw [get?_ofList, get?_ofList, get?_ofList, List.reverse_append, List.findSome?_append]

/-- Nothing is lost without the arguments that have no dashes. -/
theorem ofList_filter_dashes (arguments : List String) :
    ofList (arguments.filter fun argument => ['-', '-'].isPrefixOf argument.toList) =
      ofList arguments := by
  rw [ofList, List.foldl_filter, ofList]
  congr 1
  funext a argument
  split
  · rfl
  · rename_i plain
    rw [List.isPrefixOf_iff_prefix, ← entry?_eq_none_iff] at plain
    rw [add, plain]

theorem said_giving {given value : String} (valued : Valued given value)
    (other : given ≠ reservedKey) (key : String) :
    said key (giving given value) = if key = given then some (.text value) else none := by
  simp [said, entry?_of_valued valued, other]

theorem said_bare {rest : String} (bare : Bare rest) (other : rest ≠ reservedKey)
    (key : String) : said key ("--" ++ rest) = if key = rest then some .bare else none := by
  rw [said, entry?_of_bare bare]
  simp [other]

theorem findSome?_said_giving {pairs : List (String × String)}
    (valued : ∀ p ∈ pairs, Valued p.1 p.2 ∧ p.1 ≠ reservedKey) (key : String) :
    pairs.findSome? (fun p => said key (giving p.1 p.2)) = (pairs.lookup key).map .text := by
  induction pairs with
  | nil => rfl
  | cons p rest ih =>
    obtain ⟨⟨here, other⟩, later⟩ := List.forall_mem_cons.mp valued
    rw [List.findSome?_cons, said_giving here other, List.lookup_cons, ih later]
    by_cases same : key = p.1
    · simp [same]
    · have miss : (key == p.1) = false := by simpa using same
      simp [same, miss]

/-- Arguments that give values have on each key the last value given to it. -/
theorem get?_ofList_giving {pairs : List (String × String)}
    (valued : ∀ p ∈ pairs, Valued p.1 p.2 ∧ p.1 ≠ reservedKey) (key : String) :
    (ofList (pairs.map fun p => giving p.1 p.2)).get? key =
      (pairs.reverse.lookup key).map .text := by
  rw [get?_ofList, ← List.map_reverse, List.findSome?_map]
  apply findSome?_said_giving
  intro p member
  exact valued p (List.mem_reverse.mp member)

/-! ## Each key once -/

/-- An argument map has each key once. -/
def Distinct (a : Arguments) : Prop := (a.entries.map (·.1)).Nodup

theorem Distinct.insert {a : Arguments} (distinct : a.Distinct) (key : String)
    (value : ArgumentValue) : (a.insert key value).Distinct := by
  unfold Arguments.insert
  split
  · exact distinct
  · rw [Distinct, List.map_cons, List.nodup_cons]
    constructor
    · simp
    · exact distinct.sublist (List.filter_sublist.map _)

theorem Distinct.add {a : Arguments} (distinct : a.Distinct) (argument : String) :
    (a.add argument).Distinct := by
  unfold Arguments.add
  split
  · exact distinct.insert _ _
  · exact distinct

theorem distinct_ofList (arguments : List String) : (ofList arguments).Distinct := by
  induction arguments using List.reverseRecOn with
  | nil => exact List.nodup_nil
  | append_singleton rest argument ih =>
    rw [ofList, List.foldl_append]
    exact ih.add argument

/-- **Arguments are a map in which the last word on a key counts.**  Later arguments override
earlier ones key by key, and those without dashes say nothing.  Keys that are given values have
the last of them.  Anything else behind two dashes is a key of its own, and replaces a value
that it had.  The reserved key is not stored in either way. -/
theorem last_word_counts :
    (∀ arguments : List String, (ofList arguments).Distinct) ∧
    (∀ (a b : List String) (key : String),
      (ofList (a ++ b)).get? key = ((ofList b).get? key).or ((ofList a).get? key)) ∧
    (∀ arguments : List String,
      ofList (arguments.filter fun argument => ['-', '-'].isPrefixOf argument.toList) =
        ofList arguments) ∧
    (∀ pairs : List (String × String),
      (∀ p ∈ pairs, Valued p.1 p.2 ∧ p.1 ≠ reservedKey) → ∀ key : String,
      (ofList (pairs.map fun p => giving p.1 p.2)).get? key =
        (pairs.reverse.lookup key).map .text) ∧
    (∀ rest : String,
      Bare rest ↔ ¬ ∃ key value, rest = key ++ "=" ++ value ∧ Valued key value) ∧
    (∀ rest : String, Bare rest → rest ≠ reservedKey → ∀ (a : List String) (key : String),
      (ofList (a ++ ["--" ++ rest])).get? key =
        if key = rest then some .bare else (ofList a).get? key) ∧
    ∀ arguments : List String, (ofList arguments).get? reservedKey = none := by
  refine ⟨distinct_ofList, get?_ofList_append, ofList_filter_dashes,
    fun pairs => get?_ofList_giving, fun rest => bare_iff, ?_, ?_⟩
  · intro rest bare other a key
    rw [get?_ofList_append, get?_ofList ["--" ++ rest]]
    by_cases same : key = rest <;> simp [said_bare bare other, same]
  · intro arguments
    rw [get?_ofList, List.findSome?_eq_none_iff]
    intro argument _
    exact said_reservedKey argument

/-- Values for two keys, one of them twice and then with an equals sign in it. -/
def romAndLog : List (String × String) := [("rom", "a"), ("log", ""), ("rom", "b=c")]

/-- The key that stands alone in the end has lost its value, and an end of a line makes the
whole argument a key. -/
theorem last_word_counts_romAndLog :
    (ofList ["--rom=a", "--log=", "--rom=b=c"]).get? "rom" = some (.text "b=c") ∧
      (ofList (["--rom=a", "--log=", "--rom=b=c"] ++ ["--" ++ "rom"])).get? "rom" = some .bare ∧
      (ofList (["--rom=a", "--log=", "--rom=b=c"] ++ ["--" ++ "rom"])).get? "log" =
        some (.text "") ∧
      (ofList ([] ++ ["--" ++ ("rom" ++ "=" ++ "a\n")])).get? "rom=a\n" = some .bare := by
  obtain ⟨-, -, -, values, -, flags, -⟩ := last_word_counts
  have given := values romAndLog (by decide)
  have rom : Bare "rom" := .unsigned (by decide)
  have broken : Bare ("rom" ++ "=" ++ "a\n") :=
    @Bare.broken "rom" "a\n" '\n' (by decide) (by decide) (by decide)
  refine ⟨given "rom", ?_, ?_, ?_⟩
  · exact flags "rom" rom (by decide) _ "rom"
  · rw [flags "rom" rom (by decide) _ "log"]
    exact given "log"
  · exact flags _ broken (by decide) _ _

end Chip8.Arguments
