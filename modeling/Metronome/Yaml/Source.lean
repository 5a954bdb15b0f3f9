/-!
# Text of a YAML document

The layout of a YAML document carries meaning, so every character is kept with its place (`Placed`).
Line breaks are settled at the same time: a carriage return, a line feed, both together and a
next-line character all become one line feed, while the separators of lines and of paragraphs stay
what they are.
-/

namespace Metronome.Yaml

/-- A character and where it stands. -/
structure Placed where
  /-- The character. -/
  char : Char
  /-- How many characters stand before it. -/
  index : Nat
  /-- How many lines stand before its own. -/
  line : Nat
  /-- How many characters of its line stand before it. -/
  column : Nat

/-- A tab or a space. -/
def isBlank (c : Char) : Bool := c == ' ' || c == '\t'

/-- The end of a line. -/
def isBreak (c : Char) : Bool := c == '\n' || c == '\u2028' || c == '\u2029'

/-- A letter, a digit, a hyphen or an underscore. -/
def isWordChar (c : Char) : Bool := c.isAlphanum || c == '-' || c == '_'

/-- Whether a document may hold the character. -/
def isPrintable (c : Char) : Bool :=
  let n := c.toNat
  n == 0x09 || n == 0x0a || n == 0x0d || (0x20 ≤ n && n ≤ 0x7e) || n == 0x85 ||
    (0xa0 ≤ n && n ≤ 0xd7ff) || (0xe000 ≤ n && n ≤ 0xfffd) || 0x10000 ≤ n

/-- Characters in their places, from a given one on. -/
def placed (index line column : Nat) : List Char → List Placed
  | [] => []
  | '\r' :: '\n' :: cs => ⟨'\n', index, line, column⟩ :: placed (index + 2) (line + 1) 0 cs
  | c :: cs =>
    if c == '\r' || c == '\u0085' then
      ⟨'\n', index, line, column⟩ :: placed (index + 1) (line + 1) 0 cs
    else if isBreak c then ⟨c, index, line, column⟩ :: placed (index + 1) (line + 1) 0 cs
    else ⟨c, index, line, column⟩ :: placed (index + 1) line (column + 1) cs

/-- The characters of a text after a byte order mark, unless one of them must not be there. -/
def source? (text : String) : Option (List Placed) :=
  let cs := text.toList
  if cs.all isPrintable then
    match cs with
    | '\ufeff' :: cs => some (placed 0 0 0 cs)
    | cs => some (placed 0 0 0 cs)
  else none

/-- Whether the next character is one of `chars`. -/
def startsWith (chars : List Char) : List Placed → Bool
  | [] => false
  | p :: _ => chars.contains p.char

/-- Whether a line ends here. -/
def atLineEnd : List Placed → Bool
  | [] => true
  | p :: _ => isBreak p.char

/-- Whether a word ends here: at a blank, a break or the end of the text. -/
def atGap : List Placed → Bool
  | [] => true
  | p :: _ => isBlank p.char || isBreak p.char

/-- What follows a marker of documents: three times `c` as the first word of a line. -/
def afterMarker? (c : Char) : List Placed → Option (List Placed)
  | p :: q :: r :: rest =>
    if p.column == 0 && p.char == c && q.char == c && r.char == c && atGap rest then some rest
    else none
  | _ => none

/-- Whether a document starts or ends here. -/
def atMarker (source : List Placed) : Bool :=
  (afterMarker? '-' source).isSome || (afterMarker? '.' source).isSome

/-- The characters up to the first that fails a test, and the rest. -/
def span (test : Char → Bool) (source : List Placed) : List Char × List Placed :=
  let (front, rest) := source.span fun p => test p.char
  (front.map Placed.char, rest)

/-- The rest after leading blanks. -/
def skipBlanks (source : List Placed) : List Placed := source.dropWhile fun p => isBlank p.char

/-- The rest after the characters of a line. -/
def skipLine (source : List Placed) : List Placed := source.dropWhile fun p => !isBreak p.char

/-- The start of the next line, if nothing but blanks and a comment is left of this one. -/
def nextLine? (source : List Placed) : Option (List Placed) :=
  let source := skipBlanks source
  let source := if startsWith ['#'] source then skipLine source else source
  if atLineEnd source then some (source.drop 1) else none

end Metronome.Yaml
