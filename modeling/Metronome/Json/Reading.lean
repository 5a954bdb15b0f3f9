import Metronome.Json.Value
import Metronome.Numeral

/-!
# Reading JSON

`Json.ofText?` reads a text that holds one value and nothing else but blanks around it. Every reader
takes the characters that are left and returns the ones it did not use; the depth of nesting is
bounded by the length of the text, which serves as fuel.
-/

namespace Metronome.Json

/-- The blanks between the parts of a text. -/
def isBlank (c : Char) : Bool := c == ' ' || c == '\n' || c == '\t' || c == '\r'

/-- The characters after leading blanks. -/
def skipBlanks (cs : List Char) : List Char := cs.dropWhile isBlank

/-- Digits at the front, and the rest. -/
def digits (cs : List Char) : List Char × List Char := cs.span Char.isDigit

/-! ## Numbers -/

/-- Digits before the point: one zero, or digits that start with none. -/
def wholePart? (cs : List Char) : Option (List Char × List Char) :=
  match digits cs with
  | ([], _) => none
  | ('0' :: _ :: _, _) => none
  | part => some part

/-- The point and at least one digit, or nothing. -/
def fractionPart? : List Char → Option (List Char × List Char)
  | '.' :: cs =>
    match digits cs with
    | ([], _) => none
    | part => some part
  | cs => some ([], cs)

/-- The digits of a power of ten, at least one. -/
def powerDigits? (negative : Bool) (cs : List Char) :
    Option (Option (Bool × List Char) × List Char) :=
  match digits cs with
  | ([], _) => none
  | (ds, rest) => some (some (negative, ds), rest)

/-- The sign of a power of ten and its digits. -/
def signedPower? : List Char → Option (Option (Bool × List Char) × List Char)
  | '-' :: cs => powerDigits? true cs
  | '+' :: cs => powerDigits? false cs
  | cs => powerDigits? false cs

/-- A power of ten, or nothing. -/
def powerPart? : List Char → Option (Option (Bool × List Char) × List Char)
  | 'e' :: cs => signedPower? cs
  | 'E' :: cs => signedPower? cs
  | cs => some (none, cs)

/-- A number without its sign. -/
def unsigned? (negative : Bool) (cs : List Char) : Option (Number × List Char) := do
  let (whole, cs) ← wholePart? cs
  let (fraction, cs) ← fractionPart? cs
  let (exponent, cs) ← powerPart? cs
  return (⟨negative, whole, fraction, exponent⟩, cs)

/-- A number. -/
def number? : List Char → Option (Number × List Char)
  | '-' :: cs => unsigned? true cs
  | cs => unsigned? false cs

/-! ## Texts -/

/-- A piece of a text: a character, or a unit of 16 bits that an escape names. -/
inductive Piece
  | char (c : Char)
  | unit (n : Nat)

/-- The character that a short escape stands for. -/
def shortEscape? : Char → Option Char
  | '"' => some '"'
  | '\\' => some '\\'
  | '/' => some '/'
  | 'b' => some '\x08'
  | 'f' => some '\x0c'
  | 'n' => some '\n'
  | 'r' => some '\r'
  | 't' => some '\t'
  | _ => none

/-- What follows a backslash. -/
def escape? : List Char → Option (Piece × List Char)
  | 'u' :: a :: b :: c :: d :: rest => (Numeral.value? 16 [a, b, c, d]).map fun n => (.unit n, rest)
  | c :: rest => (shortEscape? c).map fun c => (.char c, rest)
  | [] => none

/-- The pieces of a text up to the closing quote. -/
def pieces? : Nat → List Char → Option (List Piece × List Char)
  | 0, _ => none
  | _ + 1, [] => none
  | _ + 1, '"' :: cs => some ([], cs)
  | fuel + 1, '\\' :: cs => do
    let (piece, cs) ← escape? cs
    let (more, cs) ← pieces? fuel cs
    return (piece :: more, cs)
  | fuel + 1, c :: cs =>
    if c.toNat < 32 then none
    else do
      let (more, cs) ← pieces? fuel cs
      return (.char c :: more, cs)

/-- The characters of a text. Units from `0xd800` to `0xdfff` come in pairs, a leading one and a
trailing one. -/
def join? : List Piece → Option (List Char)
  | [] => some []
  | .char c :: ps => (join? ps).map (c :: ·)
  | .unit lead :: .unit trail :: ps =>
    if 0xd800 ≤ lead && lead < 0xdc00 then
      if 0xdc00 ≤ trail && trail < 0xe000 then
        (join? ps).map (Char.ofNat (0x10000 + (lead - 0xd800) * 1024 + (trail - 0xdc00)) :: ·)
      else none
    else if 0xdc00 ≤ lead && lead < 0xe000 then none
    else (join? (.unit trail :: ps)).map (Char.ofNat lead :: ·)
  | .unit n :: ps =>
    if 0xd800 ≤ n && n < 0xe000 then none else (join? ps).map (Char.ofNat n :: ·)

/-- A text after its opening quote. -/
def text? (cs : List Char) : Option (Option String × List Char) := do
  let (pieces, cs) ← pieces? (cs.length + 1) cs
  return ((join? pieces).map String.ofList, cs)

/-! ## Values -/

/-- A fixed word. -/
def word? (word : String) (value : Json) (cs : List Char) : Option (Json × List Char) :=
  if word.toList.isPrefixOf cs then some (value, cs.drop word.length) else none

mutual

/-- A value after blanks. -/
def value? : Nat → List Char → Option (Json × List Char)
  | 0, _ => none
  | fuel + 1, cs =>
    match skipBlanks cs with
    | [] => none
    | '[' :: cs =>
      match skipBlanks cs with
      | ']' :: cs => some (array [], cs)
      | cs => (elements? fuel cs).map fun (js, cs) => (array js, cs)
    | '\x7b' :: cs =>
      match skipBlanks cs with
      | '\x7d' :: cs => some (object [], cs)
      | cs => (members? fuel cs).map fun (ms, cs) => (object ms, cs)
    | '"' :: cs => (text? cs).map fun (s, cs) => (string s, cs)
    | 'n' :: cs => word? "ull" null cs
    | 't' :: cs => word? "rue" (bool true) cs
    | 'f' :: cs => word? "alse" (bool false) cs
    | cs => (number? cs).map fun (n, cs) => (number n, cs)

/-- The elements of an array, at least one, and its closing bracket. -/
def elements? : Nat → List Char → Option (List Json × List Char)
  | 0, _ => none
  | fuel + 1, cs => do
    let (j, cs) ← value? fuel cs
    match skipBlanks cs with
    | ',' :: cs => (elements? fuel cs).map fun (js, cs) => (j :: js, cs)
    | ']' :: cs => some ([j], cs)
    | _ => none

/-- The members of an object, at least one, and its closing brace. -/
def members? : Nat → List Char → Option (List (Option String × Json) × List Char)
  | 0, _ => none
  | fuel + 1, cs =>
    match skipBlanks cs with
    | '"' :: cs => do
      let (key, cs) ← text? cs
      match skipBlanks cs with
      | ':' :: cs => do
        let (j, cs) ← value? fuel cs
        match skipBlanks cs with
        | ',' :: cs => (members? fuel cs).map fun (ms, cs) => ((key, j) :: ms, cs)
        | '\x7d' :: cs => some ([(key, j)], cs)
        | _ => none
      | _ => none
    | _ => none

end

/-- The value that a text holds. -/
def ofText? (text : String) : Option Json := do
  let cs := text.toList
  let (j, rest) ← value? (2 * cs.length + 2) cs
  if (skipBlanks rest).isEmpty then return j else none

end Metronome.Json
