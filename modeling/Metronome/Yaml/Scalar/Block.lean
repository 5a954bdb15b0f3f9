import Metronome.Numeral
import Metronome.Yaml.Scalar

/-!
# Block scalars

A block scalar is the lines after its header that are indented more than what it belongs to. The
header may say how far they are indented; otherwise the first line that is not empty shows it. It
may also say what becomes of the line breaks at the end.
-/

namespace Metronome.Yaml

/-- What becomes of the line breaks at the end. -/
inductive Chomping
  /-- None is kept. -/
  | strip
  /-- The first is kept. -/
  | clip
  /-- All are kept. -/
  | keep
deriving DecidableEq

/-- A sign that says what becomes of the line breaks at the end. -/
def chomping? : List Placed → Option Chomping
  | [] => none
  | p :: _ => if p.char == '+' then some .keep else if p.char == '-' then some .strip else none

/-- A digit. -/
def digit? : List Placed → Option Nat
  | [] => none
  | p :: _ => Numeral.digitValue? 10 p.char

/-- The header of a block scalar: a sign and a digit in either order. The digit is not zero. -/
def blockHeader? (source : List Placed) : Option (Chomping × Option Nat × List Placed) :=
  let (sign, source) :=
    match chomping? source with
    | some chomping => (some chomping, source.drop 1)
    | none => (none, source)
  match digit? source with
  | some 0 => none
  | some depth =>
    let source := source.drop 1
    match sign, chomping? source with
    | none, some chomping => some (chomping, some depth, source.drop 1)
    | _, _ => some (sign.getD .clip, some depth, source)
  | none => some (sign.getD .clip, none, source)

/-- Empty lines and the indentation of the line after them: the breaks, the widest indentation met,
and the rest. Where the indentation is known, no more than that is taken. A tab must not stand in
it. -/
def emptyLines? (indent : Option Nat) : Nat → List Placed → Option (List Char × Nat × List Placed)
  | widest, [] => some ([], widest, [])
  | widest, p :: rest =>
    let inside := indent.all (p.column < ·)
    if inside && p.char == ' ' then emptyLines? indent widest rest
    else
      let widest := max widest p.column
      if inside && p.char == '\t' then none
      else if isBreak p.char then
        (emptyLines? indent widest rest).map fun (breaks, widest, rest) =>
          (p.char :: breaks, widest, rest)
      else some ([], widest, p :: rest)

/-- Line breaks between two lines: the one that ends the first of them, and those of empty lines. -/
structure LineGap where
  /-- The break that ends a line; none before the first line. -/
  first : Option Char
  /-- The breaks of empty lines. -/
  more : List Char
  /-- Whether the line before starts with a blank. -/
  afterBlank : Bool

namespace LineGap

/-- All breaks. -/
def all (g : LineGap) : List Char := g.first.toList ++ g.more

/-- What the breaks count as before a line. Folding takes a line feed between lines that do not
start with blanks. -/
def fold (folded : Bool) (beforeBlank : Bool) (g : LineGap) : List Char :=
  if folded && g.first == some '\n' && !g.afterBlank && !beforeBlank then
    if g.more.isEmpty then [' '] else g.more
  else g.all

/-- What is left of the breaks after the last line. -/
def chomp (g : LineGap) : Chomping → List Char
  | .strip => []
  | .clip => g.first.toList
  | .keep => g.all

end LineGap

/-- Lines that start at column `indent`: their text and the breaks after the last of them. -/
def blockLines? (folded : Bool) (indent : Nat) :
    Nat → LineGap → List Placed → Option (List Char × LineGap × List Placed)
  | 0, _, _ => none
  | _ + 1, gap, [] => some ([], gap, [])
  | fuel + 1, gap, p :: rest =>
    if p.column != indent then some ([], gap, p :: rest)
    else do
      let (line, source) := span (fun c => !isBreak c) (p :: rest)
      let (more, _, after) ← emptyLines? (some indent) 0 (source.drop 1)
      let next : LineGap := ⟨source.head?.map Placed.char, more, isBlank p.char⟩
      let (text, last, after) ← blockLines? folded indent fuel next after
      return (gap.fold folded (isBlank p.char) ++ line ++ text, last, after)

/-- A block scalar after the sign of its style. It belongs to something at column `parent`, or to
the document. -/
def block? (folded : Bool) (parent : Option Nat) (source : List Placed) :
    Option (Scalar × List Placed) := do
  let (chomping, depth, source) ← blockHeader? source
  let source ← nextLine? source
  let given := depth.map (parent.getD 0 + ·)
  let (breaks, widest, source) ← emptyLines? given 0 source
  let indent := given.getD (max widest (max 1 (parent.elim 0 (· + 1))))
  let (text, last, source) ←
    blockLines? folded indent (source.length + 1) ⟨none, breaks, false⟩ source
  return (⟨if folded then .folded else .literal, text ++ last.chomp chomping⟩, source)

end Metronome.Yaml
