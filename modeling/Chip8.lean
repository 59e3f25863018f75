import Chip8.Main
import Chip8.Proofs.Core
import Chip8.Proofs.Stepping
import Chip8.Proofs.Failure
import Chip8.Proofs.Footprint
import Chip8.Proofs.History
import Chip8.Proofs.ReturnStack
import Chip8.Proofs.OutsideInfluence
import Chip8.Proofs.AssemblyText
import Chip8.Proofs.ListingAgreement
import Chip8.Proofs.ListingColumns
import Chip8.Proofs.Synonyms
import Chip8.Proofs.Encoding
import Chip8.Proofs.FlagArithmetic
import Chip8.Proofs.SavedRegisters
import Chip8.Proofs.Cadence
import Chip8.Proofs.FaultModes
import Chip8.Proofs.BareStepping
import Chip8.Proofs.Halting
import Chip8.Proofs.SplitRuns
import Chip8.Proofs.PacedRuns
import Chip8.Proofs.Observation
import Chip8.Proofs.KeyHold
import Chip8.Proofs.PressOrder
import Chip8.Proofs.ScriptedKeys
import Chip8.Proofs.TimeShift
import Chip8.Proofs.DelayCountdown
import Chip8.Proofs.GateSpacing
import Chip8.Proofs.Escapes
import Chip8.Proofs.BusyRounds
import Chip8.Proofs.PictureParity
import Chip8.Proofs.SpriteDrawing
import Chip8.Proofs.RowReports
import Chip8.Proofs.Fingerprints
import Chip8.Proofs.HeadlessRun
import Chip8.Proofs.DigitFont
import Chip8.Proofs.TraceLines
import Chip8.Proofs.Sampling
import Chip8.Proofs.ShortTap
import Chip8.Proofs.WaitingForKey
import Chip8.Proofs.PressText
import Chip8.Proofs.PressGrammar
import Chip8.Proofs.ArgumentMap
import Chip8.Proofs.ResolvedOptions
import Chip8.Proofs.OptionsInForce
