import Metronome.Decimal.Text

/-!
# The numbers of a schedule

A schedule computes with two kinds of numbers: seconds, and fractions of a tick. Everything that is
scheduled is defined for any two types with the operations below, so the same definitions run on
floating-point words and are reasoned about over exact rationals.

* `Fraction` holds what is asked of a fraction of a tick,
* `Seconds` what is asked of an amount of time,
* `Clock` turns the first into the second.
-/

namespace Metronome

/-- Fractions of a tick. -/
class Fraction (φ : Type) extends Zero φ, One φ, Sub φ, LT φ, BEq φ where
  /-- The order is decided. -/
  decidableLT : DecidableLT φ
  /-- One half. -/
  half : φ
  /-- The fraction that a percentage stands for. -/
  ofPercent : φ → φ
  /-- Whether it is a number at all. -/
  isFinite : φ → Bool
  /-- How it is written in a report. -/
  text : φ → String

attribute [reducible, instance] Fraction.decidableLT

/-- Amounts of time. -/
class Seconds (τ : Type) extends Zero τ, Add τ, Sub τ, Mul τ, LT τ where
  /-- The order is decided. -/
  decidableLT : DecidableLT τ
  /-- Whether it is a number at all. -/
  isFinite : τ → Bool
  /-- A whole number of seconds. -/
  ofInt : Int → τ
  /-- How often `unit` fits into `total`: the quotient rounded down, `0` where it is negative or no
  number, and the largest word where it is larger. -/
  wholeUnits : (total unit : τ) → UInt64
  /-- What is left of `total` after all whole `unit`s. -/
  remainder : (total unit : τ) → τ

attribute [reducible, instance] Seconds.decidableLT

/-- Amounts of time measured in fractions. -/
class Clock (τ φ : Type) where
  /-- A fraction of one second. -/
  ofFraction : φ → τ

/-! ## Floating-point words -/

instance : Fraction Float32 where
  zero := Float32.ofBits 0
  one := Float32.ofBits 0x3f800000
  decidableLT := inferInstance
  half := Float32.ofBits 0x3f000000
  ofPercent x := x / Float32.ofBits 0x42c80000
  isFinite := Float32.isFinite
  text := plainText32

instance : Seconds Float where
  zero := Float.ofBits 0
  decidableLT := inferInstance
  isFinite := Float.isFinite
  ofInt := Float.ofInt
  wholeUnits total unit := (total / unit).toUInt64
  remainder := exactRemainder

instance : Clock Float Float32 where
  ofFraction := widen

end Metronome
