import Metronome.Numeral
import Metronome.Decimal.Shortest

/-!
# Reading decimals

A written number is digits with an optional point among or beside them and an optional power of ten.
It is read as the nearest binary number, ties to the even mantissa (`Decimal.toFloat`).
-/

namespace Metronome

namespace Decimal

/-- The quotient of two positive numbers as `mantissa · 2 ^ exponent`. The mantissa has more than 64
bits, and its last bit is set if some of the quotient lies below, so that rounding it rounds the
quotient. -/
def quotient (num den : Nat) : Nat × Int :=
  let shift := Nat.log2 den + 66
  let scaled := num * Nat.pow 2 shift
  (2 * (scaled / den) + (if scaled % den = 0 then 0 else 1), -(shift : Int) - 1)

/-- The exact value, or one that rounds to the same word of 64 bits. -/
def toBinary (negative : Bool) (d : Decimal) : Binary :=
  let top := (digitCount d.digits : Int) + d.exponent
  if d.digits = 0 || top < -400 then .finite negative 0 0
  else if 400 < top then .infinite negative
  else
    let (mantissa, exponent) :=
      quotient (d.digits * Nat.pow 10 d.exponent.toNat) (Nat.pow 10 (-d.exponent).toNat)
    .finite negative mantissa exponent

/-- The nearest number of 64 bits. -/
def toFloat (negative : Bool) (d : Decimal) : Float := (d.toBinary negative).toFloat

/-- A power of ten after its letter: a sign and digits, and nothing else. -/
def powerOfTen? : List Char → Option Int
  | '-' :: ds => (Numeral.value? 10 ds).map fun n => -(n : Int)
  | '+' :: ds => (Numeral.value? 10 ds).map fun n => (n : Int)
  | ds => (Numeral.value? 10 ds).map fun n => (n : Int)

/-- The power of ten at the end of a number; zero where there is none. -/
def exponent? : List Char → Option Int
  | [] => some 0
  | c :: ds => if c == 'e' || c == 'E' then powerOfTen? ds else none

/-- The digits after a point, and the rest. -/
def fraction : List Char → List Char × List Char
  | '.' :: cs => cs.span Char.isDigit
  | cs => ([], cs)

/-- A number without sign: digits before or after a point, and a power of ten. -/
def ofChars? (cs : List Char) : Option Decimal := do
  let (whole, cs) := cs.span Char.isDigit
  let (part, cs) := fraction cs
  if whole.isEmpty && part.isEmpty then none
  else return ⟨Numeral.decimal (whole ++ part), (← exponent? cs) - (part.length : Int)⟩

/-- A number without sign, or the word for an infinity or for no number in letters of either
case. -/
def unsignedFloat? (negative : Bool) (cs : List Char) : Option Float :=
  match String.ofList (cs.map Char.toLower) with
  | "inf" => some (Binary.infinite negative).toFloat
  | "infinity" => some (Binary.infinite negative).toFloat
  | "nan" => some Binary.nan.toFloat
  | _ => (ofChars? cs).map (toFloat negative)

/-- The number that a text stands for, after an optional sign. -/
def float? : List Char → Option Float
  | '-' :: cs => unsignedFloat? true cs
  | '+' :: cs => unsignedFloat? false cs
  | cs => unsignedFloat? false cs

end Decimal

end Metronome
