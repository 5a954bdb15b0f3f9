import Metronome.CommandLine.Options
import Metronome.Decimal.Reading

/-!
# Requests

What the arguments of the program ask for. There are three commands: one prints the settings, and
two run drivers for a number of frames. The file of the settings may be named before or after the
command; after it counts.
-/

namespace Metronome.CommandLine

/-- What to do. -/
inductive Command
  /-- Print the version and the settings. -/
  | info
  /-- Run the server. -/
  | server (frames : UInt32) (frameTime : Float)
  /-- Run prediction and presentation against a server that is ahead of its snapshots. -/
  | predict (frames latency : UInt32) (frameTime : Float)

/-- What to do, and where the settings are. -/
structure Request where
  /-- The file of the settings, if they are not the standard ones. -/
  configFile : Option String
  /-- What to do. -/
  command : Command

/-- The options that have been given. -/
structure Given where
  /-- Whether more is to be logged. -/
  verbose : Bool
  /-- The file of the settings. -/
  configFile : Option String
  /-- The number of frames. -/
  frames : Option UInt32
  /-- By how many ticks snapshots lie behind. -/
  latency : Option UInt32
  /-- The seconds from frame to frame. -/
  frameTime : Option Float

namespace Given

/-- Nothing has been given. -/
def nothing : Given := ⟨false, none, none, none, none⟩

/-- A word, with an optional sign. -/
def count? (text : String) : Option UInt32 := do
  let n : Int ← match text.toList with
    | '-' :: ds => (Numeral.value? 10 ds).map fun n => -(n : Int)
    | '+' :: ds => (Numeral.value? 10 ds).map fun n => (n : Int)
    | ds => (Numeral.value? 10 ds).map fun n => (n : Int)
  if 0 ≤ n ∧ n < 4294967296 then some n.toNat.toUInt32 else none

/-- A value for an option that has none yet. -/
def first {α : Type} (old new : Option α) : Option α := if old.isNone then new else none

/-- The option for help. -/
def helpOption : Opt Given := ⟨"help", some 'h', .help⟩

/-- The option for more to be logged. -/
def verboseOption : Opt Given :=
  ⟨"verbose", some 'v', .flag fun g => if g.verbose then none else some { g with verbose := true }⟩

/-- The option for the file of the settings. -/
def configOption : Opt Given :=
  ⟨"config", some 'c', .value fun text g =>
    (first g.configFile (if text.isEmpty then none else some text)).map fun file =>
      { g with configFile := some file }⟩

/-- The option for the number of frames. -/
def framesOption : Opt Given :=
  ⟨"frames", some 'f', .value fun text g =>
    (first g.frames (count? text)).map fun n => { g with frames := some n }⟩

/-- The option for how far snapshots lie behind. -/
def latencyOption : Opt Given :=
  ⟨"rtt-ticks", none, .value fun text g =>
    (first g.latency (count? text)).map fun n => { g with latency := some n }⟩

/-- The option for the seconds from frame to frame. -/
def frameTimeOption : Opt Given :=
  ⟨"frame-dt", none, .value fun text g =>
    (first g.frameTime (Decimal.float? text.toList)).map fun x => { g with frameTime := some x }⟩

end Given

namespace Request

open Given

/-- The commands that do something. -/
def commands : List String := ["info", "server", "predict"]

/-- The options of a command. -/
def optionsOf : String → List (Opt Given)
  | "server" => [framesOption, frameTimeOption]
  | "predict" => [framesOption, latencyOption, frameTimeOption]
  | _ => []

/-- A command with its options, those left out at their usual values. -/
def commandOf (name : String) (g : Given) : Command :=
  match name with
  | "server" => .server (g.frames.getD 10) (g.frameTime.getD (Decimal.toFloat false ⟨5, -2⟩))
  | "predict" =>
    .predict (g.frames.getD 10) (g.latency.getD 4)
      (g.frameTime.getD (Decimal.toFloat false ⟨125, -4⟩))
  | _ => .info

/-- What the command for help leads to: it may be followed by the name of one command. -/
def helpOn : List String → Stop
  | [] => .help
  | [name] => if name == "help" || commands.contains name then .help else .misuse
  | _ => .misuse

/-- What some arguments ask for. -/
def ofArgs (args : List String) : Except Stop Request := do
  let (outer, command) ←
    readOptions [helpOption, verboseOption, configOption] ("help" :: commands) none nothing args
  match command with
  | none => .error .misuse
  | some ("help", args) => .error (helpOn args)
  | some (name, args) =>
    let (inner, _) ← readOptions (helpOption :: configOption :: optionsOf name) [] none nothing args
    return ⟨inner.configFile <|> outer.configFile, commandOf name inner⟩

end Request

end Metronome.CommandLine
