/-
# Chip8.Proofs.OptionsInForce -- the numbers of a run that are in force

The magnification and the trace interval of a run are resolved as whole numbers of any size, but
a picture and a host use them as signed 32-bit numbers.  `narrowed` says what such a number keeps
of a whole number; it keeps all of it if and only if that is below `2 ^ 31`
(`narrowed_eq_self_iff`).

So below `2 ^ 31` a picture has as many pixels to a cell, and a journal a line for as many
instructions, as the options say (`numbers_in_force`), and from there on other numbers are in
force: one more than `2 ^ 32` asks for a line after every instruction.
-/
import Chip8.Proofs.Images
import Chip8.Proofs.ResolvedOptions
import Chip8.Proofs.Sampling
import Chip8.Proofs.TraceLines

set_option autoImplicit false

namespace Chip8

/-! ## Signed 32-bit numbers -/

/-- What a signed 32-bit number keeps of a whole number, raised to a least value. -/
def narrowed (least n : Nat) : Nat :=
  if n % 2 ^ 32 < 2 ^ 31 then max least (n % 2 ^ 32) else least

theorem narrowed_of_lt {least n : Nat} (enough : least ≤ n) (small : n < 2 ^ 31) :
    narrowed least n = n := by
  have kept : n % 2 ^ 32 = n := Nat.mod_eq_of_lt (by omega)
  rw [narrowed, kept, if_pos small, Nat.max_eq_right enough]

/-- **A number is kept if and only if it is below `2 ^ 31`.** -/
theorem narrowed_eq_self_iff {least n : Nat} (enough : least ≤ n) (small : least < 2 ^ 31) :
    narrowed least n = n ↔ n < 2 ^ 31 := by
  constructor
  · intro kept
    rw [← kept, narrowed]
    split
    · exact Nat.max_lt.mpr ⟨small, ‹_›⟩
    · exact small
  · exact narrowed_of_lt enough

/-- The signed number is negative where the unsigned one has its highest bit. -/
theorem toNat_wrapSigned32_natCast (n : Nat) :
    (wrapSigned32 (n : Rat)).toNat = narrowed 0 n := by
  have signed : wrapSigned32 (n : Rat) = (n : Int).bmod 4294967296 := by
    rw [wrapSigned32, truncate_natCast]
  rw [signed, Int.bmod, narrowed]
  split <;> split <;> omega

theorem magnification_eq_narrowed (n : Nat) : magnification (n : Rat) = narrowed 1 n := by
  have kept := toNat_wrapSigned32_natCast n
  have one : magnification (n : Rat) = max 1 (wrapSigned32 (n : Rat)).toNat := by
    rw [magnification]
    omega
  rw [one, kept, narrowed, narrowed]
  split <;> omega

namespace Host

theorem toNat_traceIntervalOf_natCast (n : Nat) :
    (traceIntervalOf (n : Rat)).toNat = narrowed 0 n := by
  rw [traceIntervalOf, atLeastZero_natCast, toNat_wrapSigned32_natCast]

variable {σ : Type} [InputSource σ]

/-- **The number of lines**: that of the executions divided by the interval, and none without
an interval. -/
theorem length_traces_moved (settings : Settings) (m : Machine) (clock : Rat) (source : σ)
    (moves : Nat → Move) (n : Nat)
    (enabled : (create settings m clock source).logger.enabled .trace = true) :
    ((create settings m clock source).moved moves n).journal.traces.length =
      if settings.traceInterval.toNat = 0 then 0
      else ((create settings m clock source).executions moves n).length /
        settings.traceInterval.toNat := by
  split
  · have off : settings.traceInterval ≤ 0 := by omega
    have silent := traces_moved_of_untraced (h := create settings m clock source) off moves n
    rw [silent]
    rfl
  · have positive : 1 ≤ settings.traceInterval.toNat := by omega
    have interval : settings.traceInterval = (settings.traceInterval.toNat : Int) := by omega
    have kept := tracesKept_create settings m clock source moves n positive interval enabled
    exact kept.every.length

end Host

/-- **The numbers in force.**  Whatever the arguments and the environment ask for, if the options
are accepted, a picture has as many pixels to a cell, and a host that traces writes a line after
as many instructions, as is left of the numbers of the options in 32 bits with a sign.  That is
the number itself if and only if it is below `2 ^ 31`.  Then a host has written one line for
every so many executions, rounded down, and none if the number is zero.  The picture is the one
that is painted in any studio with room for it, and its image the one that is made there. -/
theorem numbers_in_force {arguments : List String} {environment : Environment} {o : RunOptions}
    (accepted : RunOptions.resolve (Arguments.ofList arguments) environment = .ok o) :
    (∀ (f : Frame) (palette : Palette),
      (f.render o.scale palette).size =
          f.width * narrowed 1 o.scale * (f.height * narrowed 1 o.scale) * 4 ∧
        (Png.Image.ofFrame f o.scale palette).width = f.width * narrowed 1 o.scale ∧
        (Png.Image.ofFrame f o.scale palette).height = f.height * narrowed 1 o.scale ∧
        (Png.Image.ofFrame f o.scale palette).data = f.render o.scale palette ∧
        ∀ studio : Studio, studio.Documented → f.refusal? o.scale studio = none →
          studio.picture f o.scale palette = .ok (f.render o.scale palette) ∧
          (1 ≤ f.width → 1 ≤ f.height → f.width * narrowed 1 o.scale < 2 ^ 31 →
            f.height * narrowed 1 o.scale < 2 ^ 31 →
            studio.image f o.scale palette = .ok (Png.Image.ofFrame f o.scale palette))) ∧
    magnification (o.scale : Rat) = narrowed 1 o.scale ∧
    (magnification (o.scale : Rat) = o.scale ↔ o.scale < 2 ^ 31) ∧
    (narrowed 0 o.traceEvery = o.traceEvery ↔ o.traceEvery < 2 ^ 31) ∧
    ∀ (σ : Type) [InputSource σ] (settings : Host.Settings) (m : Machine) (clock : Rat)
      (source : σ) (moves : Nat → Host.Move) (n : Nat),
      settings.traceInterval = Host.traceIntervalOf (o.traceEvery : Rat) →
      (Host.create settings m clock source).logger.enabled .trace = true →
      let h := Host.create settings m clock source
      let lines := (h.moved moves n).journal.traces.length
      let executed := (h.executions moves n).length
      (lines = if narrowed 0 o.traceEvery = 0 then 0 else executed / narrowed 0 o.traceEvery) ∧
      (o.traceEvery < 2 ^ 31 →
        lines = if o.traceEvery = 0 then 0 else executed / o.traceEvery) := by
  have inRange : o.InRange := by
    have spec := RunOptions.resolve_spec (Arguments.ofList arguments) environment
    rw [accepted] at spec
    exact spec.1
  have magnified := magnification_eq_narrowed o.scale
  refine ⟨?_, magnified, ?_, narrowed_eq_self_iff (Nat.zero_le _) (by decide), ?_⟩
  · intro f palette
    refine ⟨?_, ?_, ?_, Png.data_ofFrame_eq f o.scale palette, ?_⟩
    · rw [f.size_render, magnified, Frame.pictureSize]
    · rw [Png.Image.width_ofFrame, magnified]
    · rw [Png.Image.height_ofFrame, magnified]
    · intro studio documented room
      refine ⟨Studio.picture_eq_ok room, ?_⟩
      intro wide high narrow low
      rw [Frame.refusal?, magnified] at room
      exact Studio.image_eq_ok documented magnified ⟨room, wide, high, narrow, low⟩
  · rw [magnified]
    exact narrowed_eq_self_iff inRange.scale.1 (by decide)
  · intro σ _ settings m clock source moves n interval enabled h lines executed
    have counted : lines =
        if narrowed 0 o.traceEvery = 0 then 0 else executed / narrowed 0 o.traceEvery := by
      rw [← Host.toNat_traceIntervalOf_natCast, ← interval]
      exact Host.length_traces_moved settings m clock source moves n enabled
    refine ⟨counted, ?_⟩
    intro small
    rw [counted, narrowed_of_lt (Nat.zero_le _) small]

/-- A jump to itself. -/
def jumpToItself : List Rat := [0x12, 0x00]

/-- A host at the level of traces that jumps for ever, for a number of instructions from one
line to the next. -/
def jumping (every : Nat) : Host Unit :=
  Host.create
    { Host.watched with traceInterval := Host.traceIntervalOf (every : Rat), hostLevel := .trace }
    (Machine.loaded 0 (RandomStream.cycle []) jumpToItself) 0 ()

/-- The largest magnification that is kept, and a line for every second of two instructions. -/
theorem numbers_in_force_largest :
    ∃ o, RunOptions.resolve (Arguments.ofList ["--scale=2147483647", "--trace=2"])
        (fun _ => none) = .ok o ∧
      magnification (o.scale : Rat) = 2147483647 ∧
      ((jumping o.traceEvery).executions Host.everyThree 4).length = 2 ∧
      ((jumping o.traceEvery).moved Host.everyThree 4).journal.traces.length = 1 := by
  have numbers : ∃ o, RunOptions.resolve (Arguments.ofList ["--scale=2147483647", "--trace=2"])
      (fun _ => none) = .ok o ∧ o.scale = 2147483647 ∧ o.traceEvery = 2 :=
    ⟨_, rfl, by decide +kernel, by decide +kernel⟩
  obtain ⟨o, accepted, scale, every⟩ := numbers
  obtain ⟨-, -, magnified, -, lines⟩ := numbers_in_force accepted
  have two : ((jumping o.traceEvery).executions Host.everyThree 4).length = 2 := by
    rw [every]
    decide +kernel
  refine ⟨o, accepted, ?_, two, ?_⟩
  · rw [magnified.mpr (by omega), scale]
  · obtain ⟨-, counted⟩ := lines Unit (jumping o.traceEvery).settings
      (jumping o.traceEvery).machine 0 () Host.everyThree 4 rfl rfl
    have written : ((jumping o.traceEvery).moved Host.everyThree 4).journal.traces.length =
        if o.traceEvery = 0 then 0
        else ((jumping o.traceEvery).executions Host.everyThree 4).length / o.traceEvery :=
      counted (by omega)
    rw [written, two, every]
    rfl

/-- The options for `2 ^ 32 + 2` and `2 ^ 32 + 1` are accepted, but a cell is two pixels wide, and
a host writes a line after each of two instructions, where the options ask for none so soon. -/
theorem numbers_out_of_force :
    ∃ o, RunOptions.resolve (Arguments.ofList ["--scale=4294967298", "--trace=4294967297"])
        (fun _ => none) = .ok o ∧
      o.scale = 4294967298 ∧ magnification (o.scale : Rat) = 2 ∧
      o.traceEvery = 4294967297 ∧
      ((jumping o.traceEvery).executions Host.everyThree 4).length = 2 ∧
      ((jumping o.traceEvery).moved Host.everyThree 4).journal.traces.length = 2 ∧
      ((jumping o.traceEvery).executions Host.everyThree 4).length / o.traceEvery = 0 := by
  refine ⟨_, rfl, ?_⟩
  decide +kernel

end Chip8
