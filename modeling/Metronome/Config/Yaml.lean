import Metronome.Config.Fields
import Metronome.Yaml.Values

/-!
# Settings in YAML

Settings are a mapping with their names as keys. Other keys do not matter, and an empty document
gives the standard settings.
-/

namespace Metronome.Config

open Yaml

/-- What the nodes of a document mean. -/
def yamlReaders (d : Document) : Readers Node where
  float? n := d.scalar? n >>= Yaml.float?
  float32? n := (d.scalar? n >>= Yaml.float?).map narrow
  int32? n := d.scalar? n >>= Yaml.int32?
  uint32? n := d.scalar? n >>= Yaml.uint32?
  bool? n := d.scalar? n >>= Yaml.bool?
  pacing? n := d.scalar? n >>= Yaml.choice? Pacing.names

/-- An entry with a text for its key. -/
def named? (d : Document) (e : Node × Node) : Option (String × Node) :=
  (d.scalar? e.1).map fun s => (String.ofList s.1.text, e.2)

/-- The values of the settings, in the order of their names. None may come twice. -/
def yamlFields? (entries : List (String × Node)) : Option (List (Option Node)) :=
  names.mapM fun name =>
    match entries.filter fun e => e.1 == name with
    | [] => some none
    | [(_, n)] => some (some n)
    | _ => none

/-- The settings that a document gives. -/
def ofDocument? (d : Document) : Option (Config Float Float32) :=
  match d.root with
  | .scalar ⟨.plain, []⟩ _ => some standard
  | .mapping entries => do
    let fields ← yamlFields? (← entries.mapM (named? d))
    ofFields? (yamlReaders d) fields
  | _ => none

/-- The settings of a YAML text. -/
def ofYamlText (text : String) : Except Error (Config Float Float32) :=
  match Document.ofText? text with
  | some none => standard.validated
  | some (some d) =>
    match ofDocument? d with
    | some c => c.validated
    | none => .error .yaml
  | none => .error .yaml

end Metronome.Config
