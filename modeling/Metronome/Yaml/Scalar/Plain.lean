import Metronome.Yaml.Scalar

/-!
# Plain scalars

A plain scalar ends at a comment, at a mark for a mapping's value, where the indentation falls back,
at a marker of documents, and inside of brackets at every mark of theirs.
-/

namespace Metronome.Yaml

/-- The marks of collections in brackets. -/
def flowMarks : List Char := [',', '[', ']', '\x7b', '\x7d']

/-- The characters up to the end of a word. Inside of brackets a colon must not stand right before
their marks. -/
def plainWord? (inFlow : Bool) : List Placed → Option (List Char × List Placed)
  | [] => some ([], [])
  | p :: rest =>
    if isBlank p.char || isBreak p.char then some ([], p :: rest)
    else if inFlow && p.char == ':' && startsWith ('?' :: flowMarks) rest then none
    else if p.char == ':' && atGap rest then some ([], p :: rest)
    else if inFlow && flowMarks.contains p.char then some ([], p :: rest)
    else (plainWord? inFlow rest).map fun (word, rest) => (p.char :: word, rest)

/-- Whether the next character stands before a column. -/
def isBefore (column : Nat) : List Placed → Bool
  | [] => false
  | p :: _ => p.column < column

/-- Words and the gaps between them, from the gap before the first one: their text, whether a line
ended after the last of them, and the rest. -/
def plainWords? (inFlow : Bool) (floor : Nat) :
    Nat → Gap → List Placed → Option (List Char × Bool × List Placed)
  | 0, _, _ => none
  | fuel + 1, gap, source =>
    if atMarker source || startsWith ['#'] source then some ([], gap.isBroken, source)
    else do
      let (word, source) ← plainWord? inFlow source
      if word.isEmpty then return ([], gap.isBroken, source)
      else
        let (next, source) ← Gap.none.extend? floor source
        let (more, broken, source) ←
          if !inFlow && next.isBroken && isBefore floor source then pure ([], true, source)
          else plainWords? inFlow floor fuel next source
        return (gap.fold ++ word ++ more, broken, source)

/-- A plain scalar: its text, whether a line ended after it, and the rest. Outside of brackets its
further lines start at column `floor` or after it. -/
def plain? (inFlow : Bool) (floor : Nat) (source : List Placed) :
    Option (Scalar × Bool × List Placed) :=
  (plainWords? inFlow floor (source.length + 1) .none source).map fun (text, broken, rest) =>
    (⟨.plain, text⟩, broken, rest)

end Metronome.Yaml
