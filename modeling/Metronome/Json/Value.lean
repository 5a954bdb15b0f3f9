import Metronome.Decimal.Text

/-!
# JSON values

The values of a JSON text. A number is kept as it is written, because what it means depends on what
is expected of it; a text that names half of a surrogate pair is kept as no text, because it is an
error only where its characters matter.
-/

namespace Metronome

namespace Json

/-- A number as it is written. -/
structure Number where
  /-- Whether it has a minus sign. -/
  negative : Bool
  /-- The digits before the point. -/
  whole : List Char
  /-- The digits after it. -/
  fraction : List Char
  /-- Whether the power of ten is negative, and its digits. -/
  exponent : Option (Bool × List Char)
deriving DecidableEq

end Json

/-- A JSON value. -/
inductive Json
  | null
  | bool (value : Bool)
  | number (value : Json.Number)
  /-- A text; none if it names half of a surrogate pair. -/
  | string (value : Option String)
  | array (elements : List Json)
  /-- The members in the order in which they are written. -/
  | object (members : List (Option String × Json))

namespace Json

/-! ## Writing -/

/-- The text of a number. -/
def Number.chars (n : Number) : List Char :=
  let power :=
    match n.exponent with
    | none => []
    | some (negative, digits) => 'e' :: (if negative then '-' else '+') :: digits
  Binary.signChars n.negative ++ Decimal.pointed (n.whole, n.fraction) ++ power

/-- A character of a text, escaped where it has to be. -/
def escaped (c : Char) : List Char :=
  if c = '"' then ['\\', '"']
  else if c = '\\' then ['\\', '\\']
  else if c.toNat < 32 then
    match c with
    | '\n' => ['\\', 'n']
    | '\r' => ['\\', 'r']
    | '\t' => ['\\', 't']
    | '\x08' => ['\\', 'b']
    | '\x0c' => ['\\', 'f']
    | _ => ['\\', 'u', '0', '0', Nat.digitChar (c.toNat / 16), Nat.digitChar (c.toNat % 16)]
  else [c]

/-- A text in quotes. -/
def quoted (s : String) : List Char := '"' :: (s.toList.flatMap escaped ++ ['"'])

/-- A text in quotes; half a surrogate pair leaves nothing. -/
def quotedText (s : Option String) : List Char := quoted (s.getD "")

mutual

/-- The text of a value, without spaces. -/
def chars : Json → List Char
  | null => ['n', 'u', 'l', 'l']
  | bool true => ['t', 'r', 'u', 'e']
  | bool false => ['f', 'a', 'l', 's', 'e']
  | number n => n.chars
  | string s => quotedText s
  | array elements => '[' :: elementChars elements
  | object members => '\x7b' :: memberChars members

/-- The elements of an array and what closes it. -/
def elementChars : List Json → List Char
  | [] => [']']
  | [j] => j.chars ++ [']']
  | j :: js => j.chars ++ ',' :: elementChars js

/-- The members of an object and what closes it. -/
def memberChars : List (Option String × Json) → List Char
  | [] => ['\x7d']
  | [(key, j)] => quotedText key ++ ':' :: j.chars ++ ['\x7d']
  | (key, j) :: ms => quotedText key ++ ':' :: j.chars ++ ',' :: memberChars ms

end

/-- The text of a value, without spaces. -/
def text (j : Json) : String := String.ofList j.chars

/-- A text as a value. -/
def ofString (s : String) : Json := string (some s)

/-- A whole number as a value. -/
def ofInt (n : Int) : Json := number ⟨decide (n < 0), Decimal.digitChars n.natAbs, [], none⟩

/-- An object with fields in the given order. -/
def record (fields : List (String × Json)) : Json :=
  object (fields.map fun (key, value) => (some key, value))

/-! ## Binary numbers

A binary number is written with its shortest digits: positionally, with at least one place, where
its first digit lies in a range of places, and with a power of ten elsewhere. -/

/-- The number of a decimal whose first digit lies within `low` and `high`, and with a power of ten
otherwise. -/
def Number.ofDecimal (low high : Int) (negative : Bool) (d : Decimal) : Number :=
  if low ≤ d.place ∧ d.place ≤ high then
    let (whole, fraction) := d.split
    ⟨negative, whole, if fraction.isEmpty then ['0'] else fraction, none⟩
  else
    let (whole, fraction) :=
      Decimal.splitDigits (Decimal.digitCount d.digits - 1) (Decimal.digitChars d.digits)
    ⟨negative, whole, fraction, some (decide (d.place < 0), Decimal.digitChars d.place.natAbs)⟩

/-- The value of a binary number; what is no finite number is null. -/
def ofBinary (f : Binary.Format) (low high : Int) : Binary → Json
  | .finite negative mantissa exponent =>
    let d := if mantissa = 0 then ⟨0, 0⟩ else Decimal.shortest f .even mantissa exponent
    number (Number.ofDecimal low high negative d)
  | _ => null

/-- A number of 64 bits as a value: positional from `10 ^ -5` to below `10 ^ 16`. -/
def ofFloat (x : Float) : Json := ofBinary Binary.wide (-5) 15 (Binary.ofFloat x)

/-- A number of 32 bits as a value: positional from `10 ^ -6` to below `10 ^ 13`. -/
def ofFloat32 (x : Float32) : Json := ofBinary Binary.narrow (-6) 12 (Binary.ofFloat32 x)

end Json

end Metronome
