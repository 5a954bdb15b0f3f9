import Metronome.Yaml.Scalar.Plain
import Metronome.Yaml.Scalar.Quoted
import Metronome.Yaml.Scalar.Block
import Metronome.Yaml.Token.Directive
import Metronome.Yaml.Token.Layout

/-!
# Reading tokens

The tokens of a text (`Token.ofText?`), read part by part. What a character starts depends on where
it stands: inside of brackets or not, at a column where a collection is open, in front of a gap or
of a word (`Lexer.part?`).
-/

namespace Metronome.Yaml

namespace Lexer

/-- A marker of documents or a directive ends all collections. -/
def marker? (l : Lexer) (t : Token) : Option Lexer := do
  let l ← l.dedentAll.dropCandidate
  return { l.push t with allowsKey := false }

/-- An opening bracket. -/
def openFlow? (l : Lexer) (p : Placed) (t : Token) : Option Lexer := do
  let l ← l.nominate p
  return { l.push t with allowsKey := true, candidate := none, around := l.candidate :: l.around }

/-- A closing bracket. -/
def closeFlow? (l : Lexer) (t : Token) : Option Lexer := do
  let l ← l.dropCandidate
  let l := { l.push t with allowsKey := false }
  match l.around with
  | [] => return l
  | candidate :: around => return { l with candidate, around }

/-- A comma. -/
def comma? (l : Lexer) : Option Lexer := do
  let l ← l.dropCandidate
  return { l.push .comma with allowsKey := true }

/-- The sign of an item. -/
def item? (l : Lexer) (p : Placed) : Option Lexer :=
  if l.inFlow || l.allowsKey then do
    let l ← (l.indent p.column .blockSequence).dropCandidate
    return { l.push .item with allowsKey := true }
  else none

/-- The sign of a key. -/
def key? (l : Lexer) (p : Placed) : Option Lexer :=
  if l.inFlow || l.allowsKey then do
    let l ← (l.indent p.column .blockMapping).dropCandidate
    return { l.push .key with allowsKey := !l.inFlow }
  else none

/-- The sign of a value. It makes the candidate a key; without one, a key has been marked or is left
out. -/
def value? (l : Lexer) (p : Placed) : Option Lexer :=
  match l.candidate with
  | some c =>
    let column := c.start.column
    let l :=
      if l.opens column then
        { l.insert c.position [.blockMapping, .key] with indents := column :: l.indents }
      else l.insert c.position [.key]
    some { l.push .value with candidate := none, allowsKey := false }
  | none =>
    if l.inFlow || l.allowsKey then
      some { (l.indent p.column .blockMapping).push .value with allowsKey := !l.inFlow }
    else none

/-- A node in one token. -/
def node? (l : Lexer) (p : Placed) (read : Option (Token × List Placed)) :
    Option (Lexer × List Placed) := do
  let l ← l.nominate p
  let (t, source) ← read
  return ({ l.push t with allowsKey := false }, source)

/-- A plain scalar. A key may follow it where a line ended. -/
def plainNode? (l : Lexer) (p : Placed) (source : List Placed) : Option (Lexer × List Placed) := do
  let l ← l.nominate p
  let (s, broken, source) ← plain? l.inFlow l.floor source
  return ({ l.push (.scalar s) with allowsKey := broken }, source)

/-- A block scalar after the sign of its style. A key may follow it. -/
def blockNode? (l : Lexer) (folded : Bool) (source : List Placed) :
    Option (Lexer × List Placed) := do
  let l ← l.dropCandidate
  let (s, source) ← block? folded l.indents.head? source
  return ({ l.push (.scalar s) with allowsKey := true }, source)

/-- The signs that a plain scalar does not start with. -/
def signs : List Char := "-?:,[]\x7b\x7d#&*!|>'\"%@\x60".toList

/-- Whether a plain scalar starts with a character. Some signs start one if a word goes on with
them. -/
def startsPlain (l : Lexer) (p : Placed) (rest : List Placed) : Bool :=
  !(isBlank p.char || signs.contains p.char) ||
    (!atGap rest && (p.char == '-' || (!l.inFlow && (p.char == '?' || p.char == ':'))))

/-- Reads the part that starts at the character `p`, which is neither blank nor break. -/
def part? (l : Lexer) (p : Placed) (rest : List Placed) : Option (Lexer × List Placed) :=
  let source := p :: rest
  let ends := l.inFlow || atGap rest
  if p.column == 0 && p.char == '%' then do
    let (t, rest) ← directive? rest
    return (← l.marker? t, rest)
  else
    match afterMarker? '-' source, afterMarker? '.' source with
    | some rest, _ => (l.marker? .documentStart).map (·, rest)
    | none, some rest => (l.marker? .documentEnd).map (·, rest)
    | none, none =>
      match p.char with
      | '[' => (l.openFlow? p .flowSequence).map (·, rest)
      | '\x7b' => (l.openFlow? p .flowMapping).map (·, rest)
      | ']' => (l.closeFlow? .flowSequenceEnd).map (·, rest)
      | '\x7d' => (l.closeFlow? .flowMappingEnd).map (·, rest)
      | ',' => l.comma?.map (·, rest)
      | '*' => l.node? p ((anchorName? rest).map fun (name, rest) => (.alias name, rest))
      | '&' => l.node? p ((anchorName? rest).map fun (name, rest) => (.anchor name, rest))
      | '!' => l.node? p ((tag? l.inFlow rest).map fun (t, rest) => (.tag t, rest))
      | '\'' => l.node? p ((quoted? false rest).map fun (s, rest) => (.scalar s, rest))
      | '"' => l.node? p ((quoted? true rest).map fun (s, rest) => (.scalar s, rest))
      | '|' => if l.inFlow then none else l.blockNode? false rest
      | '>' => if l.inFlow then none else l.blockNode? true rest
      | c =>
        if c == '-' && atGap rest then (l.item? p).map (·, rest)
        else if c == '?' && ends then (l.key? p).map (·, rest)
        else if c == ':' && ends then (l.value? p).map (·, rest)
        else if l.startsPlain p rest then l.plainNode? p source
        else none

/-- The next part: skips blanks, breaks and comments. Outside of brackets a key may start on a new
line, and before one stands no tab. -/
def skip (inFlow : Bool) : (inComment allowsKey : Bool) → List Placed → Bool × List Placed
  | _, allowsKey, [] => (allowsKey, [])
  | inComment, allowsKey, p :: rest =>
    if isBreak p.char then skip inFlow false (allowsKey || !inFlow) rest
    else if inComment || p.char == ' ' || (p.char == '\t' && (inFlow || !allowsKey)) ||
        (p.char == '\ufeff' && p.column == 0) then
      skip inFlow inComment allowsKey rest
    else if p.char == '#' then skip inFlow true allowsKey rest
    else (allowsKey, p :: rest)

/-- Reads to the end of the text. -/
def run? : Nat → Lexer → List Placed → Option Lexer
  | 0, _, _ => none
  | fuel + 1, l, source =>
    match skip l.inFlow false l.allowsKey source with
    | (_, []) => l.dedentAll.dropCandidate
    | (allowsKey, p :: rest) => do
      let l ← { l with allowsKey }.expire p
      let (l, rest) ← (l.dedent p.column).part? p rest
      run? fuel l rest

end Lexer

/-- The tokens of a text. -/
def Token.ofText? (text : String) : Option (List Token) := do
  let source ← source? text
  let l ← Lexer.start.run? (source.length + 1) source
  return l.tokens.reverse

end Metronome.Yaml
