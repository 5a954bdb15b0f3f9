import Metronome.Clock

/-!
# Exact time

Rationals as the numbers of a schedule: no rounding, no infinities. Over them the sums of windows
and deltas are equations.
-/

namespace Metronome

/-- The whole part of a quotient, as a word. -/
def exactUnits (total unit : Rat) : UInt64 :=
  let whole := (total / unit).floor.toNat
  if whole < UInt64.size then whole.toUInt64 else UInt64.ofNat (UInt64.size - 1)

/-- What the whole part of a quotient leaves, for an amount that is not negative. -/
def exactRest (total unit : Rat) : Rat :=
  total - unit * ((total / unit).floor : Rat)

instance : Fraction Rat where
  zero := 0
  one := 1
  decidableLT := inferInstance
  half := 1 / 2
  ofPercent x := x / 100
  isFinite _ := true
  text x := toString x

instance : Seconds Rat where
  zero := 0
  decidableLT := inferInstance
  isFinite _ := true
  ofInt n := (n : Rat)
  wholeUnits := exactUnits
  remainder total unit := if total < 0 then -exactRest (-total) unit else exactRest total unit

instance : Clock Rat Rat where
  ofFraction x := x

end Metronome
