import Metronome.Yaml.Source

/-!
# Scalars

A scalar is a text in one of five styles. Three of them fold their lines: between two words stand
blanks, which are kept, or line breaks, of which a single one counts as a space and any others are
kept (`Gap`).
-/

namespace Metronome.Yaml

/-- How a scalar is written. -/
inductive Style
  /-- Without quotes. -/
  | plain
  /-- Between single quotes. -/
  | single
  /-- Between double quotes. -/
  | double
  /-- As lines that are kept. -/
  | literal
  /-- As lines that are folded. -/
  | folded
deriving DecidableEq

/-- A text and the style it is written in. -/
structure Scalar where
  /-- The style. -/
  style : Style
  /-- The text. -/
  text : List Char

/-- The scalar that stands where a document leaves one out. -/
def Scalar.empty : Scalar := ⟨.plain, []⟩

/-- What stands between two words. -/
inductive Gap
  /-- Blanks. -/
  | blanks (cs : List Char)
  /-- Line breaks: the first, unless it is escaped, and the others. -/
  | breaks (first : Option Char) (more : List Char)

namespace Gap

/-- No gap. -/
def none : Gap := blanks []

/-- Whether the line has ended. -/
def isBroken : Gap → Bool
  | blanks _ => false
  | breaks _ _ => true

/-- What a gap counts as. A lone line feed is a space; before further breaks it counts for
nothing. -/
def fold : Gap → List Char
  | blanks cs => cs
  | breaks (some '\n') [] => [' ']
  | breaks (some '\n') more => more
  | breaks first more => first.toList ++ more

/-- The gap with one more blank. Blanks at the start of a line do not count. -/
def withBlank (c : Char) : Gap → Gap
  | blanks cs => blanks (cs ++ [c])
  | gap => gap

/-- The gap with one more break. Blanks at the end of a line do not count. -/
def withBreak (c : Char) : Gap → Gap
  | blanks _ => breaks (some c) []
  | breaks first more => breaks first (more ++ [c])

/-- Reads blanks and breaks on. A tab must not stand before column `floor` of a new line. -/
def extend? (floor : Nat) : Gap → List Placed → Option (Gap × List Placed)
  | gap, [] => some (gap, [])
  | gap, p :: rest =>
    if isBreak p.char then extend? floor (gap.withBreak p.char) rest
    else if isBlank p.char then
      if gap.isBroken && p.char == '\t' && p.column < floor then Option.none
      else extend? floor (gap.withBlank p.char) rest
    else some (gap, p :: rest)

end Gap

end Metronome.Yaml
