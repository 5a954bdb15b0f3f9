import Metronome.Yaml.Scalar
import Metronome.Yaml.Tag

/-!
# Tokens

The parts of a YAML text. Indentation becomes tokens too: where a line is indented more than the
collection around it a block collection starts, and where the indentation falls back it ends.
-/

namespace Metronome.Yaml

/-- A part of a YAML text. -/
inductive Token
  /-- The version of the format. -/
  | version (major minor : Nat)
  /-- What a handle of tags is short for. -/
  | handle (name : List Char) (expansion : List UInt8)
  /-- A document starts. -/
  | documentStart
  /-- A document ends. -/
  | documentEnd
  /-- A sequence by indentation starts. -/
  | blockSequence
  /-- A mapping by indentation starts. -/
  | blockMapping
  /-- A collection by indentation ends. -/
  | blockEnd
  /-- A sequence in brackets starts. -/
  | flowSequence
  /-- A sequence in brackets ends. -/
  | flowSequenceEnd
  /-- A mapping in braces starts. -/
  | flowMapping
  /-- A mapping in braces ends. -/
  | flowMappingEnd
  /-- An item follows, by indentation. -/
  | item
  /-- An item has ended, in brackets. -/
  | comma
  /-- A key follows. -/
  | key
  /-- The value of a key follows. -/
  | value
  /-- A node that stands elsewhere. -/
  | alias (name : List Char)
  /-- A name for the next node. -/
  | anchor (name : List Char)
  /-- The kind of the next node. -/
  | tag (t : WrittenTag)
  /-- A scalar. -/
  | scalar (s : Scalar)

end Metronome.Yaml
