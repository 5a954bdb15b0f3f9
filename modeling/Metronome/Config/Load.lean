import Metronome.Config.Json
import Metronome.Config.Yaml

/-!
# Settings from a file

The name of a file says in which format its settings are. A file that cannot be read as text is
refused before its name is looked at.
-/

namespace Metronome.Config

/-- The last part of a path. -/
def fileName (path : List Char) : List Char := (path.reverse.takeWhile (· != '/')).reverse

/-- What follows the last dot of a name, unless nothing stands before that dot. -/
def ending (path : String) : String :=
  let name := fileName path.toList
  let after := (name.reverse.takeWhile (· != '.')).reverse
  if name == ['.', '.'] || name.length ≤ after.length + 1 then "" else String.ofList after

/-- The settings of a file with the given content, which is missing where nothing can be read.
Letters of either case count the same in the ending of the name. -/
def load (path : String) (content : Option ByteArray) : Except Error (Config Float Float32) :=
  match content >>= String.fromUTF8? with
  | none => .error .io
  | some text =>
    match (ending path).toLower with
    | "yaml" => ofYamlText text
    | "yml" => ofYamlText text
    | "json" => ofJsonText text
    | other => .error (.unsupportedFormat other)

end Metronome.Config
