import Metronome.CommandLine.FrameLoop
import Metronome.CommandLine.Request
import Metronome.Config.Load

/-!
# The command line

What the program prints and how it ends, for any arguments and any files (`run`). Broken settings
end it before anything is printed, and a fault ends it after the lines that were printed before.
-/

namespace Metronome.CommandLine

/-- What a run of the program leaves behind. -/
structure Outcome where
  /-- The exit code. -/
  code : UInt32
  /-- The printed lines. -/
  lines : List String
  /-- The report of a failure. -/
  failure : Option String

/-- How to use the program. -/
def usage : List String :=
  ["Usage: netstep-cli [OPTIONS] <COMMAND>", "", "Commands: info, server, predict, help"]

/-- Runs a command with its settings. -/
def Command.run (c : Config Float Float32) : Command → Printed Unit
  | .info => ⟨infoLines c, .ok ()⟩
  | .server frames frameTime => ServerLoop.run c frames frameTime
  | .predict frames latency frameTime => ClientLoop.run c frames latency frameTime

/-- The settings of a request. -/
def Request.settings (r : Request) (read : String → Option ByteArray) :
    Except Config.Error (Config Float Float32) :=
  match r.configFile with
  | none => .ok Config.standard
  | some path => Config.load path (read path)

/-- Acts on a request. -/
def Request.run (r : Request) (read : String → Option ByteArray) : Outcome :=
  match r.settings read with
  | .error e => ⟨1, [], some ("Error: " ++ e.message)⟩
  | .ok c =>
    let printed := r.command.run c
    match printed.result with
    | .ok () => ⟨0, printed.lines, none⟩
    | .error f => ⟨101, printed.lines, some f.message⟩

/-- Acts on arguments; `read` gives the content of a file that can be read. -/
def run (args : List String) (read : String → Option ByteArray) : Outcome :=
  match Request.ofArgs args with
  | .ok r => r.run read
  | .error .help => ⟨0, usage, none⟩
  | .error .misuse => ⟨2, [], some "error: wrong arguments"⟩

end Metronome.CommandLine
