import Metronome.Decimal.Reading
import Metronome.Json.Reading

/-!
# Decoding JSON values

What a value means where a certain kind of thing is expected. A number without point and power that
fits a word is a whole number; every other number is a binary one.

Binary numbers are computed, not rounded: the leading digits that fit a word of 64 bits are
converted, and the result is multiplied or divided by a power of ten once (twice where the power is
beyond the range).
-/

namespace Metronome.Json

/-- What a number is read as. -/
inductive Reading
  /-- A whole number between `-2 ^ 63` and `2 ^ 64 - 1`. -/
  | whole (n : Int)
  /-- A binary number. -/
  | real (x : Float)

/-- The value of a digit. -/
def digitValue (c : Char) : Nat := c.toNat - '0'.toNat

/-- Appends digits while the number fits a word of 64 bits: the number, and the digits left over. -/
def appendDigits : Nat → List Char → Nat × List Char
  | n, [] => (n, [])
  | n, c :: cs =>
    let more := 10 * n + digitValue c
    if more < UInt64.size then appendDigits more cs else (n, c :: cs)

/-- `x · 10 ^ power` by one multiplication or division. Dividing goes on by `10 ^ 308` until the
power is in range or nothing is left; a product past the range is none. -/
def scale? : Nat → Float → Int → Option Float
  | 0, x, _ => some x
  | fuel + 1, x, power =>
    if power.natAbs ≤ 308 then
      let ten := (Decimal.mk 1 power.natAbs).toFloat false
      if power < 0 then some (x / ten)
      else if (x * ten).isInf then none
      else some (x * ten)
    else if x == 0 then some x
    else if 0 ≤ power then none
    else scale? fuel (x / (Decimal.mk 1 308).toFloat false) (power + 308)

/-- A sum held within the range of words of 32 bits. -/
def clampWord (n : Int) : Int := max (-2147483648) (min 2147483647 n)

/-- The size of a number with the given leading digits, which count `10 ^ shift`. A power that fills
no word of 32 bits makes zero, or no number. -/
def magnitude? (leading : Nat) (shift : Int) (exponent : Option (Bool × List Char)) :
    Option Float :=
  let x := leading.toUInt64.toFloat
  match exponent with
  | none => scale? 4 x shift
  | some (negative, ds) =>
    let power := Numeral.decimal ds
    if 2147483647 < power then
      if leading != 0 && !negative then none else some 0
    else scale? 4 x (clampWord (if negative then shift - power else shift + power))

/-- What a number is read as; none past the range. -/
def Number.reading? (n : Number) : Option Reading :=
  let (leading, rest) := appendDigits 0 n.whole
  if rest.isEmpty && n.fraction.isEmpty && n.exponent.isNone &&
      (!n.negative || (0 < leading && leading ≤ 9223372036854775808)) then
    some (.whole (if n.negative then -leading else leading))
  else
    let (leading, unused) := appendDigits leading n.fraction
    let shift : Int := (rest.length : Int) - ((n.fraction.length - unused.length : Nat) : Int)
    (magnitude? leading shift n.exponent).map fun x => .real (if n.negative then -x else x)

/-! ## Expectations -/

/-- A whole number within bounds. -/
def intWithin? (low high : Int) : Json → Option Int
  | number n =>
    match n.reading? with
    | some (.whole n) => if low ≤ n ∧ n ≤ high then some n else none
    | _ => none
  | _ => none

/-- A word of 8 bits. -/
def uint8? (j : Json) : Option UInt8 := (intWithin? 0 255 j).map fun n => n.toNat.toUInt8

/-- A word of 32 bits. -/
def uint32? (j : Json) : Option UInt32 := (intWithin? 0 4294967295 j).map fun n => n.toNat.toUInt32

/-- A signed word of 32 bits. -/
def int32? (j : Json) : Option Int32 := (intWithin? (-2147483648) 2147483647 j).map Int32.ofInt

/-- The exact value of a whole number. -/
def wholeBinary (n : Int) : Binary := .finite (decide (n < 0)) n.natAbs 0

/-- A number of 64 bits. -/
def float? : Json → Option Float
  | number n => n.reading?.map fun
    | .whole n => (wholeBinary n).toFloat
    | .real x => x
  | _ => none

/-- A number of 32 bits. -/
def float32? : Json → Option Float32
  | number n => n.reading?.map fun
    | .whole n => (wholeBinary n).toFloat32
    | .real x => narrow x
  | _ => none

/-- A truth value. -/
def bool? : Json → Option Bool
  | bool b => some b
  | _ => none

/-- A text. -/
def string? : Json → Option String
  | string s => s
  | _ => none

/-- Elements of one kind. -/
def list? {α : Type} (element? : Json → Option α) : Json → Option (List α)
  | array elements => elements.mapM element?
  | _ => none

/-- The fields of a record, in the order of `names`: from an object, where other members do not
matter and none may come twice, or from an array that lists the first of them. -/
def fields? (names : List String) : Json → Option (List (Option Json))
  | array elements =>
    if elements.length ≤ names.length then
      some (elements.map some ++ List.replicate (names.length - elements.length) none)
    else none
  | object members => do
    let members ← members.mapM fun (key, j) => key.map fun key => (key, j)
    names.mapM fun name =>
      match members.filter fun m => m.1 == name with
      | [] => some none
      | [(_, j)] => some (some j)
      | _ => none
  | _ => none

/-- An alternative: its name, and what comes with it. -/
def alternative? : Json → Option (String × Option Json)
  | string s => s.map fun s => (s, none)
  | object [(key, j)] => key.map fun key => (key, some j)
  | _ => none

/-- Whether nothing comes with an alternative. -/
def isBare : Option Json → Bool
  | none => true
  | some null => true
  | _ => false

/-- One of several names with nothing beside it. -/
def choice? {α : Type} (choices : List (String × α)) (j : Json) : Option α := do
  let (name, content) ← alternative? j
  if isBare content then choices.lookup name else none

end Metronome.Json
