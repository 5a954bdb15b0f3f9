import Metronome.Binary

/-!
# Shortest decimals

Many decimals round to the same binary number. `Decimal.shortest` picks one with the fewest digits,
and of those the one nearest to the number. It tries grids of one, two, three, … digits; if a grid
has a point that rounds to the number, one of the number's two neighbours on that grid does.
-/

namespace Metronome

/-- The number `digits · 10 ^ exponent`. -/
structure Decimal where
  /-- The digits, as one number. -/
  digits : Nat
  /-- The power of ten they count. -/
  exponent : Int
deriving DecidableEq

namespace Decimal

/-- The number of decimal digits of `n`; one for `0`. -/
def digitCount (n : Nat) : Nat := (Nat.toDigits 10 n).length

/-- What to do with a number in the middle between two decimals of the least length. -/
inductive Tie
  /-- Take the decimal with the even last digit. -/
  | even
  /-- Take the larger decimal. -/
  | up
deriving DecidableEq

/-- How far a number moves from the grid point below it, by how it lies to the middle of the two. -/
def Tie.step (tie : Tie) (place : Ordering) (below : Nat) : Nat :=
  match place, tie with
  | .lt, _ => 0
  | .gt, _ => 1
  | .eq, .up => 1
  | .eq, .even => below % 2

/-- The decimal place of the first digit of `num / den`, both positive. -/
def leadingPlace (num den : Nat) : Int :=
  if den ≤ num then (digitCount (num / den) : Int) - 1
  else
    let places := digitCount (den / num)
    if den ≤ num * Nat.pow 10 (places - 1) then -((places - 1 : Nat) : Int) else -(places : Int)

/-- The numbers that round to `mantissa · 2 ^ exponent` reach from `low` to `high`, and the number
itself is `mid`, all three counted in `2 ^ (exponent - 2)`. -/
structure Interval where
  /-- The number. -/
  mid : Nat
  /-- The middle between the number and the next smaller one. -/
  low : Nat
  /-- The middle between the number and the next larger one. -/
  high : Nat
  /-- Whether the ends round to the number. -/
  closed : Bool

/-- The interval of a positive number. Below a power of two the numbers lie half as far apart. -/
def Interval.of (f : Binary.Format) (mantissa : Nat) (exponent : Int) : Interval :=
  let narrowBelow := mantissa == f.implicitBit && exponent != f.leastExponent
  ⟨4 * mantissa, 4 * mantissa - (if narrowBelow then 1 else 2), 4 * mantissa + 2, mantissa % 2 == 0⟩

/-- Whether `point / den` lies in the interval scaled by `num / den`. -/
def Interval.holds (i : Interval) (num den point : Nat) : Bool :=
  let x := point * den
  if i.closed then i.low * num ≤ x && x ≤ i.high * num else i.low * num < x && x < i.high * num

/-- The point of the grid `10 ^ grid` that rounds to the number and is nearest to it, if there is
one. -/
def onGrid (tie : Tie) (i : Interval) (exponent grid : Int) : Option Nat :=
  let scale := exponent - 2
  let num := Nat.pow 2 scale.toNat * Nat.pow 10 (-grid).toNat
  let den := Nat.pow 2 (-scale).toNat * Nat.pow 10 grid.toNat
  let below := i.mid * num / den
  let rest := i.mid * num - below * den
  match i.holds num den below, i.holds num den (below + 1) with
  | true, true =>
    some (below + tie.step (compare (2 * rest) den) below)
  | true, false => some below
  | false, true => some (below + 1)
  | false, false => none

/-- Drops the zeros at the end of the digits. -/
def stripZeros : Nat → Decimal → Decimal
  | 0, d => d
  | fuel + 1, d =>
    if d.digits % 10 == 0 && d.digits != 0 then stripZeros fuel ⟨d.digits / 10, d.exponent + 1⟩
    else d

/-- The shortest decimal that reads back as `mantissa · 2 ^ exponent`, a positive number of the
format. -/
def shortest (f : Binary.Format) (tie : Tie) (mantissa : Nat) (exponent : Int) : Decimal :=
  let i := Interval.of f mantissa exponent
  let lead := leadingPlace (mantissa * Nat.pow 2 exponent.toNat) (Nat.pow 2 (-exponent).toNat)
  let found := (List.range 17).findSome? fun (n : Nat) =>
    let grid := lead - (n : Int)
    (onGrid tie i exponent grid).map fun digits => stripZeros 20 ⟨digits, grid⟩
  found.getD ⟨mantissa * Nat.pow 2 exponent.toNat, 0⟩

end Decimal

end Metronome
