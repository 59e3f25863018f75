/-
# Chip8.Host.Run -- rounds until a time

`runFor` moves the clock itself: while the time is not over and no fault has halted the
host, it lets a millisecond pass and runs a round.  `runPaced` leaves the clock to the
input source and pauses after every so many rounds; it tells how often it has paused.

Both loops end when the clock reaches the end of the run, which a source that moves the
clock back can put off for ever.  `roundLimit` bounds the rounds of any run, far beyond
what any run that gets on reaches.
-/
import Chip8.Host.Round

set_option autoImplicit false

namespace Chip8.Host

variable {σ : Type} [InputSource σ]

/-- No run has more rounds than this, `2 ^ 60`. -/
def roundLimit : Nat := 1152921504606846976

/-- Whether a run that ends at time `stop` goes on. -/
def running (h : Host σ) (stop : Rat) : Bool := decide (h.clock < stop) && !h.halted

/-- The clock after `ms` milliseconds. -/
def advance (h : Host σ) (ms : Rat) : Host σ := { h with clock := Binary64.add h.clock ms }

/-! ## Simulated time -/

/-- Rounds a millisecond apart until time `stop`, at most `limit` of them. -/
def runUntil (stop : Rat) : Nat → Host σ → Host σ × Option Escape
  | 0, h => (h, none)
  | limit + 1, h =>
    if h.running stop then
      match (h.advance 1).poll with
      | (h, some escape) => (h, some escape)
      | (h, none) => runUntil stop limit h
    else (h, none)

/-- Runs for `ms` milliseconds of simulated time. -/
def runFor (h : Host σ) (ms : Rat) : Host σ × Option Escape :=
  runUntil (Binary64.add h.clock ms) roundLimit h

/-! ## Time that passes by itself -/

/-- Whether there is a pause after the round with this number, pausing `every` so many;
never if that is zero. -/
def pauseDue (every : Rat) (number : Nat) : Bool :=
  every != 0 && ((number : Rat) / every).den == 1

/-- A run of rounds: the host at its end, the rounds completed, the pauses made among them,
and the error that escaped. -/
structure PacedRun (σ : Type) where
  host : Host σ
  rounds : Nat
  pauses : Nat
  escape : Option Escape

/-- Rounds until the clock reads `stop`, at most `limit` of them, after `rounds` rounds and
`pauses` pauses. -/
def pacedUntil (stop every : Rat) : Nat → Nat → Nat → Host σ → PacedRun σ
  | 0, rounds, pauses, host => { host, rounds, pauses, escape := none }
  | limit + 1, rounds, pauses, h =>
    if h.running stop then
      match h.poll with
      | (host, some escape) => { host, rounds, pauses, escape := some escape }
      | (h, none) =>
        let pauses := if pauseDue every (rounds + 1) then pauses + 1 else pauses
        pacedUntil stop every limit (rounds + 1) pauses h
    else { host := h, rounds, pauses, escape := none }

/-- Runs until `ms` milliseconds have passed on a clock that the source moves. -/
def runPaced (h : Host σ) (ms every : Rat) : PacedRun σ :=
  pacedUntil (Binary64.add h.clock ms) every roundLimit 0 0 h

/-- Rounds between two pauses where nothing else is asked for. -/
def standardPause : Rat := 1000

end Chip8.Host
