import Metronome.Fault
import Metronome.Decimal.Text

/-!
# Durations

A duration is a whole number of nanoseconds. Seconds become the nearest one, ties to even; a
negative amount, no number and an amount of `2 ^ 64` seconds or more have none.
-/

namespace Metronome

/-- A span of time. -/
structure Duration where
  /-- Its nanoseconds. -/
  nanos : Nat
deriving DecidableEq

namespace Duration

/-- Nanoseconds in a second. -/
def perSecond : Nat := 1000000000

/-- The first number of nanoseconds that is too large. -/
def limit : Nat := UInt64.size * perSecond

/-- The duration nearest to `mantissa · 2 ^ exponent` seconds. -/
def ofBinary : Binary → Except Fault Duration
  | .nan => .error .durationTooBig
  | .infinite negative => .error (if negative then .negativeDuration else .durationTooBig)
  | .finite negative mantissa exponent =>
    if negative && mantissa != 0 then .error .negativeDuration
    else
      let nanos :=
        Binary.shiftRounding (mantissa * perSecond * Nat.pow 2 exponent.toNat) (-exponent).toNat
      if nanos < limit then .ok ⟨nanos⟩ else .error .durationTooBig

/-- The duration nearest to a number of seconds. -/
def ofSeconds (seconds : Float) : Except Fault Duration := ofBinary (.ofFloat seconds)

/-- What is left of a duration; nothing if less is there than is taken. -/
def saturatingSub (a b : Duration) : Duration := ⟨a.nanos - b.nanos⟩

/-- The whole seconds. -/
def seconds (d : Duration) : Nat := d.nanos / perSecond

/-- The nanoseconds past the whole seconds. -/
def subsecond (d : Duration) : Nat := d.nanos % perSecond

/-- `count` units of which `perUnit` are one, all places written that are not zeros at the end. -/
def scaledText (count perUnit : Nat) (unit : String) : String :=
  let places := Decimal.digitCount perUnit - 1
  let d := Decimal.stripZeros places ⟨count, -(places : Int)⟩
  let d : Decimal := if count = 0 then ⟨0, 0⟩ else d
  String.ofList d.positional ++ unit

/-- The duration in the largest unit of which it holds at least one. -/
def text (d : Duration) : String :=
  if perSecond ≤ d.nanos then scaledText d.nanos perSecond "s"
  else if 1000000 ≤ d.nanos then scaledText d.nanos 1000000 "ms"
  else if 1000 ≤ d.nanos then scaledText d.nanos 1000 "µs"
  else scaledText d.nanos 1 "ns"

end Duration

end Metronome
