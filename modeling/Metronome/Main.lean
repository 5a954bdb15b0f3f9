import Metronome.CommandLine

/-!
# The program

Reads the one file that the arguments may name, prints the outcome and ends with its exit code.
-/

namespace Metronome.CommandLine

/-- The content of a file, if it can be read. -/
def readFile (path : String) : IO (Option ByteArray) := do
  try
    return some (← IO.FS.readBinFile path)
  catch _ =>
    return none

/-- The file that the arguments name. -/
def namedFile (args : List String) : Option String :=
  match Request.ofArgs args with
  | .ok r => r.configFile
  | .error _ => none

end Metronome.CommandLine

open Metronome CommandLine in
/-- The program. -/
def main (args : List String) : IO UInt32 := do
  let content ← match namedFile args with
    | some path => readFile path
    | none => pure none
  let outcome := CommandLine.run args fun _ => content
  for line in outcome.lines do
    IO.println line
  if let some report := outcome.failure then
    IO.eprintln report
  return outcome.code
