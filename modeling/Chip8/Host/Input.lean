/-
# Chip8.Host.Input -- where keys come from

The host asks its input source once in every round which key is pressed.  A source may hold
a state, it sees the clock, and it may move the clock before it answers; `InputSource` is
the type class of all of them.

Three sources are given here: no keys at all (`Unit`), a `PressScript` that reports each
press on the first round at or after its time, and an `AnswerList` that holds its answers
ready and may let time pass before each.  A sum of two sources is a source.
-/
import Chip8.Keypad.Press
import Chip8.Number.Binary64

set_option autoImplicit false

namespace Chip8

/-- What a source says in one round: a key or none, its next state, and the clock. -/
structure InputAnswer (σ : Type) where
  key : Option Rat
  source : σ
  clock : Rat

class InputSource (σ : Type) where
  ask : σ → Rat → InputAnswer σ

/-- No keys. -/
instance : InputSource Unit where
  ask source clock := { key := none, source, clock }

/-! ## Scripts of presses -/

/-- The presses that have not been reported, in the order of their times. -/
structure PressScript where
  pending : List Press

namespace PressScript

def ofPresses (presses : List Press) : PressScript := { pending := Press.sorted presses }

/-- Reports the first pending press once its time has come. -/
def poll (s : PressScript) (now : Rat) : Option Rat × PressScript :=
  match s.pending with
  | [] => (none, s)
  | p :: rest => if now < p.atMs then (none, s) else (some p.key, { pending := rest })

end PressScript

instance : InputSource PressScript where
  ask s clock :=
    let (key, source) := s.poll clock
    { key, source, clock }

/-! ## Prepared answers -/

/-- Answers for the coming rounds, and the time that passes before each, if any. -/
structure AnswerList where
  answers : List (Option Rat)
  tick : Option Rat

instance : InputSource AnswerList where
  ask s clock :=
    { key := s.answers.head?.join
      source := { s with answers := s.answers.tail }
      clock := match s.tick with
        | some tick => Binary64.add clock tick
        | none => clock }

/-! ## Sums -/

instance {σ τ : Type} [InputSource σ] [InputSource τ] : InputSource (σ ⊕ τ) where
  ask
    | .inl s, clock =>
      let a := InputSource.ask s clock
      { key := a.key, source := .inl a.source, clock := a.clock }
    | .inr t, clock =>
      let a := InputSource.ask t clock
      { key := a.key, source := .inr a.source, clock := a.clock }

end Chip8
