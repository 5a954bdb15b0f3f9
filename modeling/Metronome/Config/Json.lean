import Metronome.Config.Fields
import Metronome.Json.Records

/-!
# Settings in JSON

Settings are a record of all of them by name. Any may be left out of a document.
-/

namespace Metronome

open Json

namespace Pacing

/-- The name. -/
def toJson (p : Pacing) : Json := ofString p.name

/-- The name. -/
def ofJson? (j : Json) : Option Pacing := choice? names j

end Pacing

namespace Config

/-- A record of all settings. -/
def toJson (c : Config Float Float32) : Json :=
  record (names.zip
    [ofFloat c.step, ofInt c.maxSteps.toInt, ofInt c.maxBatch.toInt, ofInt c.maxRepeat.toInt,
      ofInt c.maxFirst.toInt, c.pacing.toJson, ofFloat32 c.clampPercent, .bool c.requireGhost,
      ofInt c.historyTicks.toNat])

/-- What JSON values mean. -/
def jsonReaders : Readers Json := ⟨float?, float32?, int32?, uint32?, bool?, Pacing.ofJson?⟩

/-- The settings that a value gives. -/
def ofJson? (j : Json) : Option (Config Float Float32) := fields? names j >>= ofFields? jsonReaders

/-- The settings of a JSON text. -/
def ofJsonText (text : String) : Except Error (Config Float Float32) :=
  match Json.ofText? text >>= ofJson? with
  | some c => c.validated
  | none => .error .json

end Config

end Metronome
