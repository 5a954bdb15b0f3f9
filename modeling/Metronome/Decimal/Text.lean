import Metronome.Decimal.Shortest

/-!
# Numbers as text

Two ways to write a binary number: all its shortest digits in positional notation, and a fixed
number of places.
-/

namespace Metronome

namespace Decimal

/-- The digits of `n`. -/
def digitChars (n : Nat) : List Char := Nat.toDigits 10 n

/-- Digits split before the last `places` of them, with zeros in front where they are too few. -/
def splitDigits (places : Nat) (digits : List Char) : List Char × List Char :=
  let padded := List.replicate (places + 1 - digits.length) '0' ++ digits
  padded.splitAt (padded.length - places)

/-- The digits before the point and those after it. -/
def split (d : Decimal) : List Char × List Char :=
  if 0 ≤ d.exponent then (digitChars d.digits ++ List.replicate d.exponent.toNat '0', [])
  else splitDigits (-d.exponent).toNat (digitChars d.digits)

/-- Digits before and after a point; no point where none follow. -/
def pointed : List Char × List Char → List Char
  | (whole, []) => whole
  | (whole, fraction) => whole ++ '.' :: fraction

/-- Positional notation: every digit up to the point and down to the last one. -/
def positional (d : Decimal) : List Char := pointed d.split

/-- The place of the first digit. -/
def place (d : Decimal) : Int := d.exponent + digitCount d.digits - 1

end Decimal

namespace Binary

/-- The minus sign of a negative number. -/
def signChars (negative : Bool) : List Char := if negative then ['-'] else []

/-- The text of an infinity. -/
def infiniteText (negative : Bool) : String := if negative then "-inf" else "inf"

/-- A number in full: its shortest digits, the larger of two that are equally near, never with an
exponent. -/
def plainText (f : Format) : Binary → String
  | .nan => "NaN"
  | .infinite negative => infiniteText negative
  | .finite negative mantissa exponent =>
    let d := if mantissa = 0 then ⟨0, 0⟩ else Decimal.shortest f .up mantissa exponent
    String.ofList (signChars negative ++ d.positional)

/-- The text of a number with a fixed number of places: the nearest such decimal, ties to the even
digit. -/
def fixedText (places : Nat) : Binary → String
  | .nan => "NaN"
  | .infinite negative => infiniteText negative
  | .finite negative mantissa exponent =>
    let num := mantissa * Nat.pow 2 exponent.toNat * Nat.pow 10 places
    let den := Nat.pow 2 (-exponent).toNat
    let whole := num / den
    let rest := num % den
    let n := if 2 * rest > den || (2 * rest == den && whole % 2 == 1) then whole + 1 else whole
    String.ofList
      (signChars negative ++ Decimal.pointed (Decimal.splitDigits places (Decimal.digitChars n)))

end Binary

/-- A number of 64 bits in full, never with an exponent. -/
def plainText (x : Float) : String := (Binary.ofFloat x).plainText Binary.wide

/-- A number of 32 bits in full, never with an exponent. -/
def plainText32 (x : Float32) : String := (Binary.ofFloat32 x).plainText Binary.narrow

/-- A number of 64 bits with a fixed number of places. -/
def fixedText (places : Nat) (x : Float) : String := (Binary.ofFloat x).fixedText places

/-- A number of 32 bits with a fixed number of places. -/
def fixedText32 (places : Nat) (x : Float32) : String := (Binary.ofFloat32 x).fixedText places

end Metronome
