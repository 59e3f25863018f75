/-
# Chip8.Proofs.ResolvedOptions -- options are refused or in range

Resolving options refuses a fault mode or a press, or it gives options within their ranges and as
the texts in force ask for them (`resolve_spec`).  A count is the floor of a finite number, raised
to its least value, or the default (`Counts.inRange`), and a press is well-formed however it was
written.

Of the arguments only the texts that are not empty count (`text?_of_absent`), of an option
with a variable only the text in force (`resolve_congr`).  So an argument that is bare or empty
may be left out, and one with a text stands for its variable, whatever that is set to.
-/
import Chip8.Options.Run
import Chip8.Proofs.PressText
import Mathlib.Logic.Function.Basic

set_option autoImplicit false

namespace Chip8

namespace Arguments

/-- A key that is missing, stands alone or has an empty value. -/
def Absent (value? : Option ArgumentValue) : Prop :=
  value? = none ∨ value? = some .bare ∨ value? = some (.text "")

theorem text?_of_get? {a : Arguments} {key value : String}
    (found : a.get? key = some (.text value)) (nonempty : value ≠ "") :
    a.text? key = some value := by
  rw [text?, found]
  simp [nonempty]

theorem ne_empty_of_text? {a : Arguments} {key value : String}
    (found : a.text? key = some value) : value ≠ "" := by
  unfold text? at found
  split at found
  · split at found
    · cases found
    · rename_i nonempty
      cases found
      simpa using nonempty
  · cases found

theorem text?_of_absent {a : Arguments} {key : String} (absent : Absent (a.get? key)) :
    a.text? key = none := by
  rcases absent with missing | bare | empty
  · rw [text?, missing]
  · rw [text?, bare]
  · rw [text?, empty]
    rfl

end Arguments

namespace RunOptions

open Arguments (Absent)

/-! ## Counts -/

/-- The count that a text asks for: the floor of the number that it denotes, raised to the least
value, and the default where it denotes none. -/
structure Counts (text? : Option String) (fallback least n : Nat) : Prop where
  read : ∀ q, text?.bind (fun text => Numeral.read text.toList) = some q →
    (n : Int) = max (least : Int) q.floor
  fallback : text?.bind (fun text => Numeral.read text.toList) = none → n = fallback

theorem counts_number (text? : Option String) (fallback least : Nat) :
    Counts text? fallback least (number text? fallback least) := by
  unfold number
  cases value : text?.bind fun text => Numeral.read text.toList with
  | none =>
    refine ⟨?_, fun _ => rfl⟩
    intro q found
    rw [value] at found
    cases found
  | some q =>
    constructor
    · intro q' found
      rw [value] at found
      cases found
      exact Int.toNat_of_nonneg ((Int.natCast_nonneg least).trans (le_max_left _ _))
    · intro missing
      rw [value] at missing
      cases missing

/-- **A count is finite and not below its least value**, whatever the text. -/
theorem Counts.inRange {text? : Option String} {fallback least n : Nat}
    (counts : Counts text? fallback least n) (enough : least ≤ fallback)
    (small : fallback ≤ Binary64.exactLimit) :
    least ≤ n ∧ Binary64.beyondRange (n : Rat) = false := by
  have inside : ∀ k ≤ fallback, Binary64.beyondRange (k : Rat) = false := by
    intro k le
    exact Binary64.beyondRange_natCast
      ((le.trans small).trans_lt Binary64.exactLimit_lt_rangeEnd)
  cases value : text?.bind fun text => Numeral.read text.toList with
  | none =>
    rw [counts.fallback value]
    exact ⟨enough, inside fallback le_rfl⟩
  | some q =>
    have size := counts.read q value
    obtain ⟨text, -, numeral⟩ := Option.bind_eq_some_iff.mp value
    obtain ⟨-, high⟩ := Binary64.lt_rangeEnd_of_finite (Numeral.finite_of_read numeral)
    refine ⟨by omega, ?_⟩
    rcases le_total q.floor (least : Int) with below | above
    · have same : n = least := by omega
      rw [same]
      exact inside least enough
    · have floor : (n : Int) = q.floor := by omega
      have le : (n : Rat) ≤ q := by
        rw [← Int.cast_natCast, floor]
        exact Rat.floor_le q
      have range := Binary64.rangeEnd_pos
      have nonneg : (0 : Rat) ≤ n := Nat.cast_nonneg n
      exact Binary64.beyondRange_of_lt (by linarith) (by linarith)

/-! ## Refusals -/

theorem faultMode_eq_ok {text? : Option String} {mode : FaultMode}
    (ok : faultMode text? = .ok mode) : mode.name = text?.getD "throw" := by
  unfold faultMode at ok
  split at ok
  · cases ok
    rfl
  · split at ok
    · rename_i text _ found
      cases ok
      simpa using List.find?_some found
    · cases ok

theorem faultMode_eq_error {text? : Option String} {e : OptionError}
    (error : faultMode text? = .error e) :
    ∃ text, text? = some text ∧ text ≠ "throw" ∧ text ≠ "record" ∧ e = .badFaultMode text := by
  unfold faultMode at error
  split at error
  · cases error
  · split at error
    · cases error
    · rename_i text _ missing
      cases error
      have other : FaultMode.raise.name ≠ text ∧ FaultMode.record.name ≠ text := by
        simpa using List.find?_eq_none.mp missing
      exact ⟨text, rfl, other.1.symm, other.2.symm, rfl⟩

/-- A refusal with its cause: the fault mode in force is neither of the two, or an item of the
list of presses names a key that does not exist, or has no time or one before zero. -/
def Refused (a : Arguments) (environment : Environment) (message : String) : Prop :=
  let items := PressList.items ((a.text? "press").getD "").toList
  (∃ text, textOf a environment "onCpuError" "CHIP8_CPUERR" = some text ∧ text ≠ "throw" ∧
    text ≠ "record" ∧ message = "Bad --onCpuError: " ++ text) ∨
  (∃ item ∈ items, Keypad.keyOfText (PressList.parts item).1 = none ∧
    message = "Unknown key in --press: \"" ++ String.ofList (PressList.parts item).1 ++ "\"") ∨
  ∃ item ∈ items, (∀ q, (PressList.parts item).2.bind Numeral.read = some q → q < 0) ∧
    message = "Bad press time in --press: \"" ++ String.ofList item ++ "\""

/-- Options within their ranges: counts that are finite and not below their least value, a place
for the picture, and well-formed presses in the order of their times. -/
structure InRange (o : RunOptions) : Prop where
  ms : 1 ≤ o.ms ∧ Binary64.beyondRange (o.ms : Rat) = false
  scale : 1 ≤ o.scale ∧ Binary64.beyondRange (o.scale : Rat) = false
  traceEvery : Binary64.beyondRange (o.traceEvery : Rat) = false
  outPath : o.outPath ≠ ""
  mode : o.mode.name ∈ ["throw", "record"]
  logLevel : ∀ level, o.logLevel = some level →
    level.name ∈ ["silent", "error", "warn", "info", "debug", "trace"]
  presses : ∀ p ∈ o.presses, p.WellFormed
  ordered : o.presses.Pairwise fun p q => p.atMs ≤ q.atMs

/-- Options that are what the texts in force ask for. -/
structure Follows (o : RunOptions) (a : Arguments) (environment : Environment) : Prop where
  romPath : o.romPath = textOf a environment "rom" "CHIP8_ROM"
  outPath : o.outPath = (a.text? "out").getD "screen.png"
  ms : Counts (textOf a environment "ms" "CHIP8_MS") 2000 1 o.ms
  scale : Counts (textOf a environment "scale" "CHIP8_SCALE") 10 1 o.scale
  traceEvery : Counts (textOf a environment "trace" "CHIP8_TRACE") 0 0 o.traceEvery
  presses : PressList.read? (a.text? "press") = .ok o.presses
  mode : o.mode.name = (textOf a environment "onCpuError" "CHIP8_CPUERR").getD "throw"
  logLevel : ∀ level, o.logLevel = some level ↔ a.text? "log" = some level.name

theorem ofName?_eq_some_iff {name : String} {level : Log.Level} :
    Log.Level.ofName? name = some level ↔ name = level.name := by
  constructor
  · intro found
    have same : level.name = name := by simpa using List.find?_some found
    exact same.symm
  · rintro rfl
    cases level <;> decide

theorem read?_spec {text? : Option String} {presses : List Press}
    (read : PressList.read? text? = .ok presses) :
    (∀ p ∈ presses, p.WellFormed) ∧ presses.Pairwise fun p q => p.atMs ≤ q.atMs := by
  cases text? with
  | none =>
    cases read
    simp
  | some text =>
    obtain ⟨formed, ordered, -⟩ := PressList.read_spec read
    exact ⟨formed, ordered⟩

theorem exists_of_read?_eq_error {text? : Option String} {e : PressError}
    (failed : PressList.read? text? = .error e) :
    ∃ item ∈ PressList.items (text?.getD "").toList, PressList.press item = .error e := by
  cases text? with
  | none => cases failed
  | some text => exact PressList.exists_of_read_eq_error failed

theorem resolve_eq (a : Arguments) (environment : Environment) :
    resolve a environment =
      match faultMode (textOf a environment "onCpuError" "CHIP8_CPUERR") with
      | .error e => .error e
      | .ok mode =>
        match PressList.read? (a.text? "press") with
        | .error e => .error (.press e)
        | .ok presses => .ok {
            romPath := textOf a environment "rom" "CHIP8_ROM"
            outPath := (a.text? "out").getD "screen.png"
            ms := number (textOf a environment "ms" "CHIP8_MS") 2000 1
            scale := number (textOf a environment "scale" "CHIP8_SCALE") 10 1
            presses
            traceEvery := number (textOf a environment "trace" "CHIP8_TRACE") 0 0
            mode
            logLevel := (a.text? "log").bind Log.Level.ofName? } := by
  rw [resolve]
  cases faultMode (textOf a environment "onCpuError" "CHIP8_CPUERR") with
  | error e => rfl
  | ok mode =>
    cases PressList.read? (a.text? "press") with
    | error e => rfl
    | ok presses => rfl

theorem mode_name (mode : FaultMode) : mode.name ∈ ["throw", "record"] := by
  cases mode <;> decide

theorem level_name (level : Log.Level) :
    level.name ∈ ["silent", "error", "warn", "info", "debug", "trace"] := by
  cases level <;> decide

/-- **Options are refused, or they are in range** and what the texts in force ask for. -/
theorem resolve_spec (a : Arguments) (environment : Environment) :
    match resolve a environment with
    | .error e => Refused a environment e.message
    | .ok o => o.InRange ∧ o.Follows a environment := by
  rw [resolve_eq]
  cases fault : faultMode (textOf a environment "onCpuError" "CHIP8_CPUERR") with
  | error e =>
    obtain ⟨text, inForce, raise, record, rfl⟩ := faultMode_eq_error fault
    exact .inl ⟨text, inForce, raise, record, rfl⟩
  | ok mode =>
    cases listed : PressList.read? (a.text? "press") with
    | error e =>
      obtain ⟨item, member, failed⟩ := exists_of_read?_eq_error listed
      have cause := PressList.press_spec item
      rw [failed] at cause
      right
      rcases cause with ⟨unknown, rfl⟩ | ⟨untimed, rfl⟩
      · exact .inl ⟨item, member, unknown, rfl⟩
      · exact .inr ⟨item, member, untimed, rfl⟩
    | ok presses =>
      obtain ⟨formed, ordered⟩ := read?_spec listed
      have path : (a.text? "out").getD "screen.png" ≠ "" := by
        cases named : a.text? "out" with
        | none => decide
        | some path => exact Arguments.ne_empty_of_text? named
      constructor
      · exact {
          ms := (counts_number _ _ _).inRange (by decide) (by decide)
          scale := (counts_number _ _ _).inRange (by decide) (by decide)
          traceEvery := ((counts_number _ _ _).inRange (by decide) (by decide)).2
          outPath := path
          mode := mode_name mode
          logLevel := fun level _ => level_name level
          presses := formed
          ordered }
      · exact {
          romPath := rfl
          outPath := rfl
          ms := counts_number _ _ _
          scale := counts_number _ _ _
          traceEvery := counts_number _ _ _
          presses := listed
          mode := faultMode_eq_ok fault
          logLevel := fun level => by simp [Option.bind_eq_some_iff, ofName?_eq_some_iff] }

/-! ## Precedence -/

/-- Options that may also come from a variable of the environment. -/
def fromEnvironment : List (String × String) :=
  [("onCpuError", "CHIP8_CPUERR"), ("rom", "CHIP8_ROM"), ("ms", "CHIP8_MS"),
    ("scale", "CHIP8_SCALE"), ("trace", "CHIP8_TRACE")]

/-- Only the texts in force count. -/
theorem resolve_congr {a b : Arguments} {environment environment' : Environment}
    (texts : ∀ p ∈ fromEnvironment, textOf a environment p.1 p.2 = textOf b environment' p.1 p.2)
    (press : a.text? "press" = b.text? "press") (out : a.text? "out" = b.text? "out")
    (log : a.text? "log" = b.text? "log") : resolve a environment = resolve b environment' := by
  have mode := texts ("onCpuError", "CHIP8_CPUERR") (by decide)
  have rom := texts ("rom", "CHIP8_ROM") (by decide)
  have ms := texts ("ms", "CHIP8_MS") (by decide)
  have scale := texts ("scale", "CHIP8_SCALE") (by decide)
  have trace := texts ("trace", "CHIP8_TRACE") (by decide)
  rw [resolve_eq, resolve_eq]
  simp only at mode rom ms scale trace
  rw [mode, rom, ms, scale, trace, press, out, log]

/-- Arguments that are bare or empty may be left out. -/
theorem resolve_of_absent {a b : Arguments} (environment : Environment)
    (alike : ∀ key, a.get? key = b.get? key ∨ Absent (a.get? key) ∧ Absent (b.get? key)) :
    resolve a environment = resolve b environment := by
  have texts : ∀ key, a.text? key = b.text? key := by
    intro key
    rcases alike key with same | ⟨absent, absent'⟩
    · rw [Arguments.text?, Arguments.text?, same]
    · rw [Arguments.text?_of_absent absent, Arguments.text?_of_absent absent']
  refine resolve_congr ?_ (texts _) (texts _) (texts _)
  intro p _
  rw [textOf, textOf, texts]

/-- No two options have the same name or the same variable, and the options without a variable
have other names. -/
theorem fromEnvironment_distinct : ∀ p ∈ fromEnvironment, ∀ q ∈ fromEnvironment,
    (p.1 = q.1 ↔ p.2 = q.2) ∧ p.1 ≠ "press" ∧ p.1 ≠ "out" ∧ p.1 ≠ "log" := by
  decide

/-- An argument with a text stands for its variable, whatever that is set to. -/
theorem resolve_of_text {a b : Arguments} (environment : Environment) {key name value : String}
    (pair : (key, name) ∈ fromEnvironment) (nonempty : value ≠ "")
    (given : a.get? key = some (.text value)) (absent : Absent (b.get? key))
    (alike : ∀ other, other ≠ key → b.get? other = a.get? other) :
    resolve a environment = resolve b (Function.update environment name (some value)) := by
  have texts : ∀ other, other ≠ key → a.text? other = b.text? other := by
    intro other ne
    rw [Arguments.text?, Arguments.text?, alike other ne]
  obtain ⟨-, press, out, log⟩ := fromEnvironment_distinct _ pair _ pair
  refine resolve_congr ?_ (texts _ press.symm) (texts _ out.symm) (texts _ log.symm)
  rintro ⟨key', name'⟩ pair'
  have distinct : key' = key ↔ name' = name := (fromEnvironment_distinct _ pair' _ pair).1
  rw [textOf, textOf]
  by_cases same : key' = key
  · obtain rfl : name' = name := distinct.mp same
    subst same
    rw [Arguments.text?_of_get? given nonempty, Arguments.text?_of_absent absent,
      Function.update_self]
    rfl
  · have other : name' ≠ name := fun names => same (distinct.mpr names)
    rw [texts key' same, Function.update_of_ne other]

/-- **Whatever the arguments and the environment, options are refused or in range**, and they are
what the texts in force ask for.  An argument whose value is not empty takes precedence over the
environment: it counts as its variable, and what that is set to does not matter.  One that is bare
or empty counts as absent. -/
theorem resolve_refused_or_inRange :
    (∀ (arguments : List String) (environment : Environment),
      match resolve (Arguments.ofList arguments) environment with
      | .error e => Refused (Arguments.ofList arguments) environment e.message
      | .ok o => o.InRange ∧ o.Follows (Arguments.ofList arguments) environment) ∧
    (∀ (a b : Arguments) (environment : Environment) (key name value : String),
      (key, name) ∈ fromEnvironment → value ≠ "" → a.get? key = some (.text value) →
      Absent (b.get? key) → (∀ other, other ≠ key → b.get? other = a.get? other) →
      resolve a environment = resolve b (Function.update environment name (some value))) ∧
    ∀ (a b : Arguments) (environment : Environment),
      (∀ key, a.get? key = b.get? key ∨ Absent (a.get? key) ∧ Absent (b.get? key)) →
      resolve a environment = resolve b environment := by
  refine ⟨fun arguments environment => resolve_spec _ environment, ?_, ?_⟩
  · intro a b environment key name value pair nonempty given absent alike
    exact resolve_of_text environment pair nonempty given absent alike
  · intro a b environment alike
    exact resolve_of_absent environment alike

/-- An environment that asks for seven milliseconds. -/
def sevenMs : Environment := fun name => if name = "CHIP8_MS" then some "7" else none

/-- Five milliseconds asked for by an argument are five, and an empty argument leaves seven. -/
theorem resolve_refused_or_inRange_sevenMs :
    resolve (Arguments.ofList ["--ms=5"]) sevenMs =
        resolve (Arguments.ofList ["--ms"]) (Function.update sevenMs "CHIP8_MS" (some "5")) ∧
      resolve (Arguments.ofList ["--ms="]) sevenMs = resolve Arguments.empty sevenMs ∧
      (∃ o, resolve (Arguments.ofList ["--ms=5"]) sevenMs = .ok o ∧ o.ms = 5) ∧
      ∃ o, resolve Arguments.empty sevenMs = .ok o ∧ o.ms = 7 := by
  obtain ⟨-, argument, absent⟩ := resolve_refused_or_inRange
  refine ⟨?_, ?_, ?_, ?_⟩
  · apply argument _ _ _ "ms" "CHIP8_MS" "5" (by decide) (by decide) (by decide)
    · exact .inr (.inl (by decide))
    · intro other ne
      have entries : (Arguments.ofList ["--ms"]).entries = [("ms", .bare)] := by decide
      have entries' : (Arguments.ofList ["--ms=5"]).entries = [("ms", .text "5")] := by decide
      have miss : (other == "ms") = false := by simpa using ne
      rw [Arguments.get?, Arguments.get?, entries, entries']
      simp [List.lookup_cons, miss]
  · apply absent
    intro key
    have entries : (Arguments.ofList ["--ms="]).entries = [("ms", .text "")] := by decide
    rw [Arguments.get?, Arguments.get?, entries]
    by_cases same : key = "ms"
    · subst same
      exact .inr ⟨.inr (.inr rfl), .inl rfl⟩
    · have miss : (key == "ms") = false := by simpa using same
      simp [List.lookup_cons, miss, Arguments.empty]
  · exact ⟨_, rfl, by decide +kernel⟩
  · exact ⟨_, rfl, by decide +kernel⟩

end RunOptions

end Chip8
