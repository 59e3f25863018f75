/-
# Chip8.Proofs.HeadlessRun -- how a run without a window ends

The command settles its options, reads an image, runs it and stores a picture.  `Stops` lists
the ways in which it comes to no picture: the options are wrong, no image is named, the image
cannot be read or has a wrong size, or an instruction fails in a host that raises its faults.
Then the command ends with code 1.  In every other case one picture is stored, and `Stored` says
what it shows, with which code the command ends and what it reports: `run_outcome`.

What a run does is said without a host.  The presses give a latch for every millisecond, the
machine makes a step in every third of them, each with its latch (`Machine.played`), and the
first step that fails, if there is one in time, ends the run (`RunOptions.failedAt?`).
A host that raises its faults does the same up to its first (`runUntil_raise`).
-/
import Chip8.Command.Headless
import Chip8.Proofs.FaultModes
import Chip8.Proofs.Images
import Chip8.Proofs.KeyedStepping
import Chip8.Proofs.ListingAgreement
import Chip8.Proofs.SplitRuns

set_option autoImplicit false

namespace Chip8

/-! ## Runs that raise -/

namespace Host

section Raise

variable {σ : Type} [InputSource σ] {h : Host σ}

/-- **A run raises the fault that it would have recorded**, and without one it is the same. -/
theorem runUntil_raise (mode : h.settings.mode = .record) (unfailed : h.fault = none) (stop : Rat)
    (limit : Nat) :
    (runUntil stop limit (h.inMode .raise)).2 =
        (runUntil stop limit h).1.fault.map Escape.fault ∧
      ((runUntil stop limit h).1.fault = none →
        (runUntil stop limit (h.inMode .raise)).1 = (runUntil stop limit h).1.inMode .raise) := by
  induction limit generalizing h with
  | zero =>
    rw [runUntil, runUntil, unfailed]
    exact ⟨rfl, fun _ => rfl⟩
  | succ limit ih =>
    cases goesOn : h.running stop with
    | false =>
      have ended : (h.inMode .raise).running stop = false := goesOn
      rw [runUntil_of_not_running goesOn, runUntil_of_not_running ended, unfailed]
      exact ⟨rfl, fun _ => rfl⟩
    | true =>
      have goesOn' : (h.inMode .raise).running stop = true := goesOn
      have later : (h.inMode .raise).advance 1 = (h.advance 1).inMode .raise := rfl
      rw [runUntil_round goesOn', later, runUntil_of_running mode goesOn]
      have unfailed' : (h.advance 1).fault = none := unfailed
      cases round : (h.advance 1).roundFault? with
      | none =>
        rw [poll_inMode round, followedBy_none]
        have clean : h.tick.fault = none := (poll_fault unfailed').trans round
        have kept : h.tick.settings.mode = .record := by rw [tick_settings, mode]
        exact ih kept clean
      | some fault =>
        have failed : h.tick.fault = some fault := (poll_fault unfailed').trans round
        obtain ⟨escape, -⟩ := poll_of_roundFault (h := h.advance 1) mode round
        rcases raised : ((h.advance 1).inMode .raise).poll with ⟨left, result⟩
        rw [raised] at escape
        subst escape
        rw [followedBy_some, runUntil_of_halted (by rw [halted, failed]; rfl), failed]
        exact ⟨rfl, fun impossible => by cases impossible⟩

omit [InputSource σ] in
theorem inMode_self {mode : FaultMode} (same : h.settings.mode = mode) : h.inMode mode = h := by
  subst same
  rfl

/-- A run from a time on in either mode, next to one that records its faults. -/
structure RunsLike (mode : FaultMode) (run : Host σ × Option Escape) (recorded : Host σ) :
    Prop where
  escape : run.2 = if mode = .raise then recorded.fault.map Escape.fault else none
  host : run.2 = none → run.1 = recorded.inMode mode

omit [InputSource σ] in
/-- A run that raises has a fault to raise. -/
theorem RunsLike.raises {mode : FaultMode} {run : Host σ × Option Escape} {recorded : Host σ}
    (alike : RunsLike mode run recorded) {escape : Escape} (raised : run.2 = some escape) :
    mode = .raise ∧ recorded.fault.isSome := by
  have escapes := raised.symm.trans alike.escape
  by_cases raise : mode = .raise
  · rw [if_pos raise] at escapes
    rw [← Option.isSome_map (f := Escape.fault), ← escapes]
    exact ⟨raise, rfl⟩
  · rw [if_neg raise] at escapes
    cases escapes

omit [InputSource σ] in
/-- A run that raises nothing has had no fault, or has recorded it. -/
theorem RunsLike.quiet {mode : FaultMode} {run : Host σ × Option Escape} {recorded : Host σ}
    (alike : RunsLike mode run recorded) (ended : run.2 = none) :
    ¬ (mode = .raise ∧ recorded.fault.isSome) := by
  rintro ⟨raise, failed⟩
  have escapes := ended.symm.trans alike.escape
  rw [if_pos raise] at escapes
  rw [← Option.isSome_map (f := Escape.fault), ← escapes] at failed
  cases failed

theorem runFor_mode (unfailed : h.fault = none) {ms : Rat} {recorded : Host σ}
    (run : (h.inMode .record).runFor ms = (recorded, none))
    (kept : recorded.settings.mode = .record) :
    RunsLike h.settings.mode (h.runFor ms) recorded := by
  cases mode : h.settings.mode with
  | record =>
    rw [inMode_self mode] at run
    rw [run]
    exact ⟨rfl, fun _ => (inMode_self kept).symm⟩
  | raise =>
    obtain ⟨escape, same⟩ := runUntil_raise (h := h.inMode .record) rfl unfailed
      (Binary64.add h.clock ms) roundLimit
    have back : (h.inMode .record).inMode .raise = h := inMode_self mode
    have recording : runUntil (Binary64.add h.clock ms) roundLimit (h.inMode .record) =
        (recorded, none) := run
    rw [back, recording] at escape same
    refine ⟨escape.trans (if_pos rfl).symm, fun quiet => same ?_⟩
    rw [← runFor, quiet] at escape
    exact Option.map_eq_none_iff.mp escape.symm

end Raise

end Host

/-! ## What a run does -/

namespace RunOptions

/-- The latch after some milliseconds of a run. -/
def latches (o : RunOptions) : Nat → Latch :=
  heard (PressScript.ofPresses o.presses) (Latch.create 0 Latch.standardHold) 0

/-- How many instructions of an image succeed before one fails, if one fails in time. -/
def failedAt? (o : RunOptions) (random : RandomStream) (image : List UInt8) : Option Nat :=
  (Machine.loaded 0 random (image.map byteValue)).firstFault? o.latches 0 o.ms

/-- The cells of the screen at the end of a run: after the step that fails, if one does, and
otherwise after as many steps as fit into the time. -/
def lastCells (o : RunOptions) (random : RandomStream) (image : List UInt8) : Grid :=
  let steps := ((o.failedAt? random image).map (· + 1)).getD (o.ms / 3)
  ((Machine.loaded 0 random (image.map byteValue)).played o.latches 0 steps).screen.cells

end RunOptions

namespace Command.Headless

/-- A host around a new machine with an image, a journal aside. -/
def Plan.begun (plan : Plan) (random : RandomStream) (image : List UInt8)
    (journal : Log.Journal) : Host PressScript :=
  { Host.create plan.settings (Machine.loaded 0 random (image.map byteValue)) 0
      (PressScript.ofPresses plan.options.presses) with journal }

section Image

variable {plan : Plan} {random : RandomStream} {image : List UInt8} {journal : Log.Journal}

/-- An image that is not too long is loaded. -/
theorem loadRom_host (plan : Plan) (random : RandomStream) (fits : image.length ≤ 3584) :
    ∃ journal, (plan.host random image.length).loadRom (image.map byteValue) =
      (plan.begun random image journal, none) := by
  obtain ⟨journal, loaded⟩ :=
    Host.loadRom_eq (plan.host random image.length) (image.map byteValue)
  refine ⟨journal, loaded.trans (Prod.ext rfl ?_)⟩
  exact Memory.loadProgram_fault _ (by rw [List.length_map]; exact fits)

/-- A recording host that has just begun keeps time, and has done nothing yet. -/
theorem begun_onTime (plan : Plan) (random : RandomStream) (image : List UInt8)
    (journal : Log.Journal) :
    Host.OnTime 0 0 ((plan.begun random image journal).inMode .record) where
  mode := rfl
  keeps := Host.keepsClock_pressScript _
  clock := rfl
  stepped := rfl
  shown := rfl
  flushed := rfl
  tried := rfl
  halts := fun failed => absurd rfl failed

theorem begun_played (plan : Plan) (random : RandomStream) (image : List UInt8)
    (journal : Log.Journal) :
    Host.Played (PressScript.ofPresses plan.options.presses)
      (Machine.loaded 0 random (image.map byteValue)) 0 0
      ((plan.begun random image journal).inMode .record) where
  input := rfl
  machine := rfl
  presented _ := rfl

theorem runFor_begun (plan : Plan) (random : RandomStream) (image : List UInt8)
    (journal : Log.Journal) (exact : plan.options.ms < 9007199254740992) :
    ∃ n left,
      Host.RunEnds (PressScript.ofPresses plan.options.presses)
        (Machine.loaded 0 random (image.map byteValue)) 0 plan.options.ms n left ∧
      left.settings.hasDisplay = true ∧ Host.RunsLike plan.options.mode
        ((plan.begun random image journal).runFor plan.options.ms) left := by
  obtain ⟨n, left, run, configured, ends⟩ := Host.runFor_played
    (begun_onTime plan random image journal) (begun_played plan random image journal) rfl
    (by decide) (show (0 : Int) + plan.options.ms < 9007199254740992 by omega)
  refine ⟨n, left, ends, ?_, Host.runFor_mode rfl run ends.onTime.mode⟩
  rw [configured]
  rfl

end Image

/-! ## How the command ends -/

/-- What the command reports of a run. -/
def reportLine (outPath : String) (executed flushes : Nat) (g : Grid) : Line :=
  { stream := .out
    text := "[headless] Wrote " ++ outPath ++ " after " ++ toString executed ++
      " instructions, " ++ toString flushes ++ " flushes; frame=" ++ g.hash }

/-- The command has stored nothing. -/
structure Failed (outcome : Outcome) : Prop where
  code : outcome.code = 1
  pictures : outcome.pictures = []

/-- The command has stored one picture of the screen at the end of a run. -/
structure Stored (o : RunOptions) (level : Log.Level) (random : RandomStream)
    (image : List UInt8) (outcome : Outcome) : Prop where
  picture : ∃ picture, outcome.pictures = [(o.outPath, picture)] ∧
    picture.Shows (magnification o.scale) (o.lastCells random image)
  code : outcome.code =
    if o.mode = .record ∧ (o.failedAt? random image).isSome then 2 else 0
  report : Log.Level.info.rank ≤ level.rank → ∃ executed flushes,
    outcome.lines.getLast? =
        some (reportLine o.outPath executed flushes (o.lastCells random image)) ∧
      (o.failedAt? random image = none → executed = o.ms / 3 ∧ flushes = o.ms / 11) ∧
      ∀ k, o.failedAt? random image = some k → executed = k ∧ flushes = 3 * (k + 1) / 11

section Ends

variable {plan : Plan} {random : RandomStream} {image : List UInt8}

/-- A logger that talks writes a message as a line of its own. -/
theorem journalLines_info (plan : Plan) (talks : Log.Level.info.rank ≤ plan.level.rank)
    (text : String) :
    journalLines (Log.Journal.write #[] plan.logger .info [.text text]) =
      [{ stream := .out, text := "[headless]" ++ " " ++ text }] := by
  have enabled : plan.logger.enabled .info = true :=
    Bool.and_eq_true_iff.mpr ⟨rfl, decide_eq_true talks⟩
  have entry : plan.logger.entry? .info [.text text] =
      some { channel := .log, args := [.text "[headless]", .text text] } := if_pos enabled
  rw [Log.Journal.write, entry]
  rfl

/-- The report is the last line. -/
theorem getLast?_report (plan : Plan) (h : Host PressScript)
    (talks : Log.Level.info.rank ≤ plan.level.rank) (before : List Line) :
    (before ++ journalLines
        (Log.Journal.write #[] plan.logger .info [.text (plan.summary h)])).getLast? =
      some (reportLine plan.options.outPath h.executed h.display.presented
        h.machine.screen.cells) := by
  have wrote : "[headless] Wrote " = "[headless]" ++ " " ++ "Wrote " := rfl
  rw [journalLines_info plan talks, List.getLast?_concat, reportLine, wrote]
  simp only [Plan.summary, String.append_assoc]

section Left

variable {n : Nat} {left : Host PressScript}
  (ends : Host.RunEnds (PressScript.ofPresses plan.options.presses)
    (Machine.loaded 0 random (image.map byteValue)) 0 plan.options.ms n left)

include ends

/-- The screen that a run leaves. -/
theorem cells_of_ends : left.machine.screen.cells = plan.options.lastCells random image := by
  have rounds : n = ((plan.options.failedAt? random image).map fun k => 3 * (k + 1)).getD
    plan.options.ms := ends.rounds
  have steps : n / 3 =
      ((plan.options.failedAt? random image).map (· + 1)).getD (plan.options.ms / 3) := by
    rw [rounds]
    cases plan.options.failedAt? random image with
    | none => rfl
    | some k => exact Nat.mul_div_cancel_left (k + 1) (by decide)
  rw [ends.played.machine, RunOptions.lastCells, ← steps]
  rfl

/-- The counts that a run leaves. -/
theorem counts_of_ends (hasDisplay : left.settings.hasDisplay = true) :
    (plan.options.failedAt? random image = none →
      left.executed = plan.options.ms / 3 ∧ left.display.presented = plan.options.ms / 11) ∧
    ∀ k, plan.options.failedAt? random image = some k →
      left.executed = k ∧ left.display.presented = 3 * (k + 1) / 11 := by
  have rounds : n = ((plan.options.failedAt? random image).map fun k => 3 * (k + 1)).getD
    plan.options.ms := ends.rounds
  have fault : left.fault.isSome = (plan.options.failedAt? random image).isSome := ends.fault
  have tried := ends.onTime.tried
  rw [ends.played.presented hasDisplay]
  cases failed : plan.options.failedAt? random image with
  | none =>
    rw [failed] at rounds fault
    have all : n = plan.options.ms := rounds
    have clean : left.fault = none := Option.not_isSome_iff_eq_none.mp (by rw [fault]; decide)
    rw [clean] at tried
    subst all
    exact ⟨fun _ => ⟨tried, rfl⟩, nofun⟩
  | some k =>
    rw [failed] at rounds fault
    have last : n = 3 * (k + 1) := rounds
    obtain ⟨f, halted⟩ := Option.isSome_iff_exists.mp fault
    rw [halted, Option.toList_some, List.length_singleton] at tried
    refine ⟨nofun, ?_⟩
    rintro _ ⟨⟩
    exact ⟨by omega, by rw [last]⟩

/-- What is stored of a run that raises nothing. -/
theorem stored_of_ends (hasDisplay : left.settings.hasDisplay = true)
    (quiet : ¬ (plan.options.mode = .raise ∧ left.fault.isSome)) (before : List Line) :
    let kept := left.inMode plan.options.mode
    Stored plan.options plan.level random image
      { code := if kept.halted then 2 else 0
        lines := before ++ journalLines
          (Log.Journal.write #[] plan.logger .info [.text (plan.summary kept)])
        pictures := [(plan.options.outPath,
          Png.Image.ofFrame (Frame.ofGrid kept.machine.screen.cells) plan.options.scale
            Palette.monochrome)] } := by
  intro kept
  have cells : left.machine.screen.cells = plan.options.lastCells random image :=
    cells_of_ends ends
  have halted : kept.halted = (plan.options.failedAt? random image).isSome := ends.fault
  constructor
  · refine ⟨_, rfl, ?_⟩
    rw [← cells]
    exact Png.Image.shows_ofGrid _ _
  · apply if_congr _ rfl rfl
    rw [← halted]
    constructor
    · intro failed
      refine ⟨?_, failed⟩
      cases mode : plan.options.mode with
      | record => rfl
      | raise => exact absurd ⟨mode, failed⟩ quiet
    · exact And.right
  · intro talks
    refine ⟨left.executed, left.display.presented, ?_, counts_of_ends ends hasDisplay⟩
    rw [← cells]
    exact getLast?_report plan kept talks before

end Left

/-- How the run of an image of the right size ends. -/
theorem finish_runImage (plan : Plan) (random : RandomStream) {image : List UInt8}
    {studio : Studio} (documented : studio.Documented)
    (exact : plan.options.ms < 9007199254740992) (fits : image.length ≤ 3584)
    (room : Png.refusal? (Frame.ofGrid Grid.blank) plan.options.scale studio = none)
    {writeError? : String → Option FileError}
    (writable : writeError? plan.options.outPath = none) :
    if plan.options.mode = .raise ∧ (plan.options.failedAt? random image).isSome then
      Failed ((plan.runImage random image studio).finish writeError?)
    else
      Stored plan.options plan.level random image
        ((plan.runImage random image studio).finish writeError?) := by
  obtain ⟨journal, loaded⟩ := loadRom_host plan random fits
  obtain ⟨n, left, ends, hasDisplay, alike⟩ := runFor_begun plan random image journal exact
  have faults : left.fault.isSome = (plan.options.failedAt? random image).isSome := ends.fault
  rw [← faults]
  fun_cases Plan.runImage plan random image studio with
  | case1 h fault failed =>
    rw [loaded] at failed
    cases failed
  | case2 begun there h escape raised =>
    rw [loaded] at there
    cases there
    rw [raised] at alike
    rw [if_pos (alike.raises rfl)]
    exact ⟨rfl, rfl⟩
  | case3 begun there h ran frame refusal refused =>
    cases (Studio.image_ofGrid documented room _).symm.trans refused
  | case4 begun there h ran frame picture made closing =>
    have shown := Except.ok.inj ((Studio.image_ofGrid documented room _).symm.trans made)
    rw [← shown]
    rw [loaded] at there
    cases there
    rw [ran] at alike
    have kept : h = left.inMode plan.options.mode := alike.host rfl
    subst kept
    rw [if_neg (alike.quiet rfl), Ending.finish, writable]
    exact stored_of_ends ends hasDisplay (alike.quiet rfl) _

end Ends

section Command

variable {arguments : List String} {environment : Environment} {files : Files}
  {random : RandomStream} {studio : Studio}

/-- Why the command stores nothing. -/
inductive Stops (arguments : List String) (environment : Environment) (files : Files)
    (random : RandomStream) : Prop where
  /-- The options are wrong. -/
  | options {error : OptionError}
    (wrong : RunOptions.resolve (Arguments.ofList arguments) environment = .error error)
  /-- No image is named. -/
  | unnamed {o : RunOptions}
    (settled : RunOptions.resolve (Arguments.ofList arguments) environment = .ok o)
    (nothing : o.romPath = none ∨ o.romPath = some "")
  /-- The image cannot be read. -/
  | unread {o : RunOptions} {path : String} {error : FileError}
    (settled : RunOptions.resolve (Arguments.ofList arguments) environment = .ok o)
    (named : o.romPath = some path) (missing : files.read path = .error error)
  /-- The image has a wrong size. -/
  | size {o : RunOptions} {path : String} {image : List UInt8}
    (settled : RunOptions.resolve (Arguments.ofList arguments) environment = .ok o)
    (named : o.romPath = some path) (read : files.read path = .ok image)
    (wrong : image.length = 0 ∨ 3584 < image.length)
  /-- An instruction fails, and the fault is raised. -/
  | fault {o : RunOptions} {path : String} {image : List UInt8}
    (settled : RunOptions.resolve (Arguments.ofList arguments) environment = .ok o)
    (named : o.romPath = some path) (read : files.read path = .ok image)
    (raise : o.mode = .raise) (fails : (o.failedAt? random image).isSome)

/-- The outcome without options. -/
theorem failed_of_options {error : OptionError}
    (wrong : RunOptions.resolve (Arguments.ofList arguments) environment = .error error) :
    Failed (run arguments environment files random studio) := by
  simp only [run, prepare, wrong]
  exact ⟨rfl, rfl⟩

/-- The outcome without the name of an image. -/
theorem failed_of_unnamed {o : RunOptions}
    (settled : RunOptions.resolve (Arguments.ofList arguments) environment = .ok o)
    (nothing : o.romPath = none ∨ o.romPath = some "") :
    Failed (run arguments environment files random studio) := by
  have hidden : o.romPath.filter (!·.isEmpty) = none := by
    rcases nothing with absent | empty
    · rw [absent]
      rfl
    · rw [empty]
      rfl
  simp only [run, prepare, settled, hidden]
  exact ⟨rfl, rfl⟩

/-- The plan for settled options. -/
def planOf (o : RunOptions) (environment : Environment) (path : String) : Plan :=
  { options := o
    romPath := path
    level := o.logLevel.getD (Log.Level.ofEnvironment (environment "CHIP8_LOG")) }

theorem run_of_named {o : RunOptions} {path : String}
    (settled : RunOptions.resolve (Arguments.ofList arguments) environment = .ok o)
    (named : o.romPath = some path) (nonempty : path ≠ "") :
    run arguments environment files random studio =
      ((planOf o environment path).simulate random (files.read path) studio).finish
        files.writeError? := by
  have shown : o.romPath.filter (!·.isEmpty) = some path := by
    rw [named, Option.filter_some, if_pos]
    simpa using nonempty
  simp only [run, prepare, settled, shown]
  rfl

/-- Contents that are no image are not run. -/
theorem failed_of_contents (plan : Plan) {contents : Except FileError (List UInt8)}
    (wrong : (∃ error, contents = .error error) ∨
      ∃ image, contents = .ok image ∧ (image.length = 0 ∨ 3584 < image.length))
    (writeError? : String → Option FileError) :
    Failed ((plan.simulate random contents studio).finish writeError?) := by
  rcases wrong with ⟨error, rfl⟩ | ⟨image, rfl, size⟩
  · exact ⟨rfl, rfl⟩
  · have refused : ∃ error, Rom.validate image = .error error := by
      rw [Rom.validate_eq]
      by_cases empty : image.length = 0
      · exact ⟨.empty, if_pos empty⟩
      · exact ⟨.tooLarge image.length, by rw [if_neg empty, if_pos (size.resolve_left empty)]⟩
    obtain ⟨error, refused⟩ := refused
    simp only [Plan.simulate, refused]
    exact ⟨rfl, rfl⟩

theorem simulate_of_size (plan : Plan) {image : List UInt8}
    (right : ¬ (image.length = 0 ∨ 3584 < image.length)) :
    plan.simulate random (.ok image) studio = plan.runImage random image studio := by
  rw [not_or] at right
  have accepted : Rom.validate image = .ok image := by
    rw [Rom.validate_eq, if_neg right.1, if_neg right.2]
  simp only [Plan.simulate, accepted]

/-- Nothing else stops the command. -/
theorem not_stops {o : RunOptions} {path : String} {image : List UInt8}
    (settled : RunOptions.resolve (Arguments.ofList arguments) environment = .ok o)
    (named : o.romPath = some path) (nonempty : path ≠ "") (read : files.read path = .ok image)
    (right : ¬ (image.length = 0 ∨ 3584 < image.length))
    (quiet : ¬ (o.mode = .raise ∧ (o.failedAt? random image).isSome)) :
    ¬ Stops arguments environment files random := by
  intro stops
  cases stops with
  | options wrong =>
    rw [settled] at wrong
    cases wrong
  | unnamed settled' nothing =>
    cases settled.symm.trans settled'
    rw [named] at nothing
    simp [nonempty] at nothing
  | unread settled' named' missing =>
    cases settled.symm.trans settled'
    cases named.symm.trans named'
    cases read.symm.trans missing
  | size settled' named' read' wrong =>
    cases settled.symm.trans settled'
    cases named.symm.trans named'
    cases read.symm.trans read'
    exact right wrong
  | fault settled' named' read' raise fails =>
    cases settled.symm.trans settled'
    cases named.symm.trans named'
    cases read.symm.trans read'
    exact quiet ⟨raise, fails⟩

/-- **How the command ends.**  If the options are wrong, or no image is named, or it cannot be
read or has a wrong size, or an instruction fails in time and its fault is raised, the code is 1
and nothing is stored.  Otherwise one picture is stored, and it shows the screen at the end of
the run; the code is 2 if an instruction has failed, and 0 if none has.  What is assumed is a
time that is exact, a place for the picture, and a studio that makes an image of its size. -/
theorem run_outcome (arguments : List String) (environment : Environment) (files : Files)
    (random : RandomStream) (studio : Studio) (documented : studio.Documented)
    (assumed : ∀ o, RunOptions.resolve (Arguments.ofList arguments) environment = .ok o →
      o.ms < 9007199254740992 ∧ files.writeError? o.outPath = none ∧
        Png.refusal? (Frame.ofGrid Grid.blank) o.scale studio = none) :
    (Stops arguments environment files random →
      Failed (run arguments environment files random studio)) ∧
    (¬ Stops arguments environment files random → ∃ o path image,
      RunOptions.resolve (Arguments.ofList arguments) environment = .ok o ∧
        o.romPath = some path ∧ files.read path = .ok image ∧
        Stored o (o.logLevel.getD (Log.Level.ofEnvironment (environment "CHIP8_LOG"))) random
          image (run arguments environment files random studio)) := by
  cases settled : RunOptions.resolve (Arguments.ofList arguments) environment with
  | error error =>
    exact ⟨fun _ => failed_of_options settled, fun goesOn => absurd (.options settled) goesOn⟩
  | ok o =>
    obtain ⟨exact, writable, room⟩ := assumed o settled
    by_cases nothing : o.romPath = none ∨ o.romPath = some ""
    · exact ⟨fun _ => failed_of_unnamed settled nothing,
        fun goesOn => absurd (.unnamed settled nothing) goesOn⟩
    obtain ⟨path, named⟩ : ∃ path, o.romPath = some path :=
      Option.ne_none_iff_exists'.mp fun absent => nothing (Or.inl absent)
    have nonempty : path ≠ "" := by
      rintro rfl
      exact nothing (Or.inr named)
    rw [run_of_named settled named nonempty]
    cases read : files.read path with
    | error error =>
      exact ⟨fun _ => failed_of_contents _ (Or.inl ⟨error, rfl⟩) _,
        fun goesOn => absurd (.unread settled named read) goesOn⟩
    | ok image =>
      by_cases wrong : image.length = 0 ∨ 3584 < image.length
      · exact ⟨fun _ => failed_of_contents _ (Or.inr ⟨image, rfl, wrong⟩) _,
          fun goesOn => absurd (.size settled named read wrong) goesOn⟩
      rw [simulate_of_size _ wrong]
      have ending : if o.mode = .raise ∧ (o.failedAt? random image).isSome then Failed _
          else Stored o _ random image _ :=
        finish_runImage (planOf o environment path) random documented exact (by omega) room
          writable
      by_cases fails : o.mode = .raise ∧ (o.failedAt? random image).isSome
      · rw [if_pos fails] at ending
        exact ⟨fun _ => ending,
          fun goesOn => absurd (.fault settled named read fails.1 fails.2) goesOn⟩
      · rw [if_neg fails] at ending
        exact ⟨fun stops => absurd stops (not_stops settled named nonempty read wrong fails),
          fun _ => ⟨o, path, image, rfl, named, read, ending⟩⟩

end Command

/-- A run of a tenth of a second that records its fault, with the key 5 pressed on the way. -/
def tenth : RunOptions where
  romPath := some "digit.ch8"
  outPath := "screen.png"
  ms := 100
  scale := 10
  presses := [{ key := 5, atMs := 21 / 2 }]
  traceEvery := 0
  mode := .record
  logLevel := none

def tenthArguments : List String :=
  ["--rom=digit.ch8", "--ms=100", "--onCpuError=record", "--press=5@10.5"]

/-- A program that waits for a key and draws its digit.  What follows is no instruction. -/
def digit : List UInt8 := [0xf0, 0x0a, 0xf0, 0x29, 0xd1, 0x25]

/-- The press comes between two milliseconds, after three steps that wait.  Three more steps
draw the digit, and the one after them fails, so the picture shows the digit and the code is 2. -/
theorem run_outcome_digit :
    let outcome := run tenthArguments (fun _ => none)
      { read := fun _ => .ok digit, writeError? := fun _ => none } (RandomStream.cycle [])
      Studio.standard
    outcome.code = 2 ∧
      (∃ picture, outcome.pictures = [("screen.png", picture)] ∧
        picture.Shows 10 (tenth.lastCells (RandomStream.cycle []) digit)) ∧
      (tenth.lastCells (RandomStream.cycle []) digit).get (Grid.placeOf 3 3) = true := by
  intro outcome
  have settled : RunOptions.resolve (Arguments.ofList tenthArguments) (fun _ => none) =
      .ok tenth := by decide +kernel
  have fails : tenth.failedAt? (RandomStream.cycle []) digit = some 6 := by decide +kernel
  have ten : magnification tenth.scale = 10 := by decide +kernel
  have documented : Studio.standard.Documented := Studio.documented_ofLimit _
  have room : Png.refusal? (Frame.ofGrid Grid.blank) tenth.scale Studio.standard = none :=
    Studio.image_refusal?_eq_none documented ten
      ⟨by decide, by decide, by decide, by decide, by decide⟩
  have quiet : ¬ (tenth.mode = .raise ∧
      (tenth.failedAt? (RandomStream.cycle []) digit).isSome = true) := by
    rintro ⟨raise, -⟩
    cases raise
  have goesOn : ¬ Stops tenthArguments (fun _ => none)
      { read := fun _ => .ok digit, writeError? := fun _ => none } (RandomStream.cycle []) :=
    not_stops settled rfl (by decide) rfl (by decide) quiet
  obtain ⟨-, ends⟩ := run_outcome tenthArguments (fun _ => none)
    { read := fun _ => .ok digit, writeError? := fun _ => none } (RandomStream.cycle [])
    Studio.standard documented (by
      intro o settled'
      cases settled.symm.trans settled'
      exact ⟨by decide, rfl, room⟩)
  obtain ⟨o, path, image, settled', -, read, stored⟩ := ends goesOn
  cases settled.symm.trans settled'
  cases read
  refine ⟨?_, ?_, by decide +kernel⟩
  · rw [stored.code, fails]
    rfl
  · rw [← ten]
    exact stored.picture

end Command.Headless

end Chip8
