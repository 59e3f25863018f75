/-
# Chip8.Command.Headless -- a run without a window

The command runs a program for some simulated time, with presses from a script, and stores
a picture of the screen as it is at the end.  `prepare` settles the options, `simulate` runs
the image and says what is to be stored and what is to be told afterwards, and `Ending.finish`
puts the outcome together once it is known whether the picture could be stored.

An error on the way ends the command with code 1 and stores nothing, and so does a picture
that the studio has no room for or no image.  A fault that was only recorded gives code 2.
-/
import Chip8.Command.Outcome
import Chip8.Host.Run
import Chip8.Options.Run
import Chip8.Rom
import Chip8.Screen.Fingerprint
import Chip8.Screen.Studio

set_option autoImplicit false

namespace Chip8.Command.Headless

def usage : String :=
  "Usage: tsx scripts/headless_run.ts --rom=path/to/game.ch8 [--out=screen.png] [--ms=2000] " ++
  "[--scale=10] [--press=KEY@MS,...] [--trace=N] [--onCpuError=throw|record]"

/-- The line for an error of some kind that nothing has handled. -/
def errorLine (kind message : String) : Line :=
  { stream := .err, text := "[headless] Unhandled error: " ++ kind ++ ": " ++ message }

/-- The kind of an error that is none of the machine's own. -/
def plainKind : String := "Error"

/-! ## Options -/

/-- What a run needs to know before it reads its image. -/
structure Plan where
  options : RunOptions
  romPath : String
  level : Log.Level

/-- The plan of a run, or the outcome where there is nothing to run. -/
def prepare (arguments : List String) (environment : Environment) : Except Outcome Plan :=
  match RunOptions.resolve (Arguments.ofList arguments) environment with
  | .error error => .error (.plain 1 [errorLine plainKind error.message])
  | .ok options =>
    match options.romPath.filter (!·.isEmpty) with
    | none => .error (.plain 1 [{ stream := .err, text := usage }])
    | some romPath =>
      let level := options.logLevel.getD (Log.Level.ofEnvironment (environment "CHIP8_LOG"))
      .ok { options, romPath, level }

/-! ## The run -/

/-- How a run ends: on the way, or with a picture to be stored. -/
inductive Ending where
  | stopped (outcome : Outcome)
  /-- Told before and after the picture is stored, and the code if it is. -/
  | picture (before : List Line) (path : String) (image : Png.Image) (after : List Line)
      (code : Nat)

def Plan.settings (plan : Plan) : Host.Settings :=
  { mode := plan.options.mode
    traceInterval := Host.traceIntervalOf plan.options.traceEvery
    hasDisplay := true
    hostLevel := plan.level
    machineLevel := plan.level }

def Plan.logger (plan : Plan) : Log.Logger := { tag := "headless", level := plan.level }

/-- What is told of an image before it runs. -/
def Plan.announcement (plan : Plan) (size : Nat) : String :=
  let o := plan.options
  "ROM: " ++ plan.romPath ++ " (" ++ toString size ++ " bytes)  out: " ++ o.outPath ++
    "  ms: " ++ Decimal.text o.ms ++ "  scale: " ++ Decimal.text o.scale ++
    "  presses: " ++ toString o.presses.length

/-- What is told of a run once its picture is stored. -/
def Plan.summary (plan : Plan) (h : Host PressScript) : String :=
  "Wrote " ++ plan.options.outPath ++ " after " ++ toString h.executed ++ " instructions, " ++
    toString h.display.presented ++ " flushes; frame=" ++ h.machine.screen.cells.hash

/-- The host of a run before its image is loaded, the announcement in its journal. -/
def Plan.host (plan : Plan) (random : RandomStream) (size : Nat) : Host PressScript :=
  let script := PressScript.ofPresses plan.options.presses
  let h := Host.create plan.settings (Machine.create 0 random) 0 script
  { h with journal := h.journal.write plan.logger .info [.text (plan.announcement size)] }

/-- The kind and the message of an error that escapes from a run. -/
def escapeLine : Host.Escape → Line
  | .fault fault => errorLine fault.name fault.message
  | .held held => errorLine plainKind held.message

/-- Runs an image of the right size. -/
def Plan.runImage (plan : Plan) (random : RandomStream) (image : List UInt8)
    (studio : Studio) : Ending :=
  match (plan.host random image.length).loadRom (image.map byteValue) with
  | (h, some fault) =>
    .stopped (.plain 1 (journalLines h.journal ++ [errorLine fault.name fault.message]))
  | (h, none) =>
    match h.runFor plan.options.ms with
    | (h, some escape) => .stopped (.plain 1 (journalLines h.journal ++ [escapeLine escape]))
    | (h, none) =>
      let frame := Frame.ofGrid h.machine.screen.cells
      match studio.image frame plan.options.scale Palette.monochrome with
      | .error refusal =>
        .stopped (.plain 1 (journalLines h.journal ++ [errorLine refusal.kind refusal.message]))
      | .ok image =>
        let closing := Log.Journal.write #[] plan.logger .info [.text (plan.summary h)]
        .picture (journalLines h.journal) plan.options.outPath image (journalLines closing)
          (if h.halted then 2 else 0)

/-- Runs the contents of an image file. -/
def Plan.simulate (plan : Plan) (random : RandomStream)
    (contents : Except FileError (List UInt8)) (studio : Studio) : Ending :=
  match contents with
  | .error error => .stopped (.plain 1 [errorLine plainKind error.message])
  | .ok bytes =>
    match Rom.validate bytes with
    | .error error => .stopped (.plain 1 [errorLine plainKind error.message])
    | .ok image => plan.runImage random image studio

/-- The outcome, given why the picture could not be stored. -/
def Ending.finish (ending : Ending) (writeError? : String → Option FileError) : Outcome :=
  match ending with
  | .stopped outcome => outcome
  | .picture before path image after code =>
    match writeError? path with
    | some error => .plain 1 (before ++ [errorLine plainKind error.message])
    | none => { code, lines := before ++ after, pictures := [(path, image)] }

def run (arguments : List String) (environment : Environment) (files : Files)
    (random : RandomStream) (studio : Studio := Studio.standard) : Outcome :=
  match prepare arguments environment with
  | .error outcome => outcome
  | .ok plan =>
    (plan.simulate random (files.read plan.romPath) studio).finish files.writeError?

end Chip8.Command.Headless
