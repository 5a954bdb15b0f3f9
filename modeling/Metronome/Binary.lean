/-!
# Binary numbers taken apart

A floating-point word stands for a signed dyadic number `mantissa · 2 ^ exponent`, an infinity or no
number. The operations here read a word into that form and round the form back into a word (to
nearest, ties to the even mantissa), both by arithmetic on natural numbers alone. The conversions
between the two widths, the remainder of a division and the next whole number are defined through
them.
-/

namespace Metronome

/-- The value of a floating-point word. -/
inductive Binary
  /-- No number. -/
  | nan
  /-- An infinity. -/
  | infinite (negative : Bool)
  /-- The number `± mantissa · 2 ^ exponent`; a zero keeps its sign. -/
  | finite (negative : Bool) (mantissa : Nat) (exponent : Int)
deriving DecidableEq

namespace Binary

/-- The shape of a floating-point word. -/
structure Format where
  /-- Bits of the mantissa that are stored. -/
  fractionBits : Nat
  /-- Bits of the exponent. -/
  exponentBits : Nat

/-- Words of 64 bits. -/
def wide : Format := ⟨52, 11⟩

/-- Words of 32 bits. -/
def narrow : Format := ⟨23, 8⟩

namespace Format

/-- One more than the largest stored fraction; also the implicit bit. -/
def implicitBit (f : Format) : Nat := Nat.pow 2 f.fractionBits

/-- The exponent field of infinities. -/
def topExponent (f : Format) : Nat := Nat.pow 2 f.exponentBits - 1

/-- The exponent of the smallest numbers, those whose exponent field is `0` or `1`. -/
def leastExponent (f : Format) : Int :=
  2 - (Nat.pow 2 (f.exponentBits - 1) : Nat) - (f.fractionBits : Nat)

end Format

/-- The value of a word. -/
def ofWord (f : Format) (word : Nat) : Binary :=
  let fraction := word % f.implicitBit
  let field := word / f.implicitBit % (f.topExponent + 1)
  let negative := word / f.implicitBit / (f.topExponent + 1) % 2 == 1
  if field = f.topExponent then
    if fraction = 0 then .infinite negative else .nan
  else if field = 0 then
    .finite negative fraction f.leastExponent
  else
    .finite negative (fraction + f.implicitBit) (f.leastExponent + field - 1)

/-- The nearest whole number to `n / 2 ^ shift`, ties to the even one. -/
def shiftRounding (n shift : Nat) : Nat :=
  let unit := Nat.pow 2 shift
  let whole := n / unit
  let rest := n % unit
  if 2 * rest > unit || (2 * rest == unit && whole % 2 == 1) then whole + 1 else whole

/-- The word of `mantissa · 2 ^ exponent` without its sign, rounded to nearest, ties to the even
mantissa. -/
def roundWord (f : Format) (mantissa : Nat) (exponent : Int) : Nat :=
  if mantissa = 0 then 0
  else
    let target := max (exponent + Nat.log2 mantissa - f.fractionBits) f.leastExponent
    let rounded :=
      if target ≤ exponent then mantissa * Nat.pow 2 (exponent - target).toNat
      else shiftRounding mantissa (target - exponent).toNat
    -- a stored fraction that carries over moves the exponent field up by itself
    let word := (target - f.leastExponent).toNat * f.implicitBit + rounded
    min word (f.topExponent * f.implicitBit)

/-- The word of a value, rounded to nearest. -/
def toWord (f : Format) : Binary → Nat
  | .nan => f.topExponent * f.implicitBit + f.implicitBit / 2
  | .infinite negative => sign negative + f.topExponent * f.implicitBit
  | .finite negative mantissa exponent => sign negative + roundWord f mantissa exponent
where
  sign (negative : Bool) : Nat := if negative then (f.topExponent + 1) * f.implicitBit else 0

/-- The value of a number of 64 bits. -/
def ofFloat (x : Float) : Binary := ofWord wide x.toBits.toNat

/-- The number of 64 bits nearest to a value. -/
def toFloat (b : Binary) : Float := Float.ofBits (b.toWord wide).toUInt64

/-- The value of a number of 32 bits. -/
def ofFloat32 (x : Float32) : Binary := ofWord narrow x.toBits.toNat

/-- The number of 32 bits nearest to a value. -/
def toFloat32 (b : Binary) : Float32 := Float32.ofBits (b.toWord narrow).toUInt32

/-- The numerators of two numbers `m · 2 ^ e` and `n · 2 ^ d` over their common unit, and the
exponent of that unit. -/
def align (m : Nat) (e : Int) (n : Nat) (d : Int) : Nat × Nat × Int :=
  let unit := min e d
  (m * Nat.pow 2 (e - unit).toNat, n * Nat.pow 2 (d - unit).toNat, unit)

/-- What is left of `x` after whole multiples of `y` are taken away, with the sign of `x`. -/
def remainder : Binary → Binary → Binary
  | .finite negative m e, .finite _ n d =>
    if n = 0 then .nan
    else
      let (a, b, unit) := align m e n d
      .finite negative (a % b) unit
  | .finite negative m e, .infinite _ => .finite negative m e
  | _, _ => .nan

/-- The least whole number that is not smaller. -/
def ceiling : Binary → Binary
  | .finite negative m e =>
    if 0 ≤ e then .finite negative m e
    else
      let unit := Nat.pow 2 (-e).toNat
      .finite negative (if negative then m / unit else (m + unit - 1) / unit) 0
  | b => b

end Binary

/-- The remainder of a division that rounds its quotient toward zero; it is exact. -/
def exactRemainder (x y : Float) : Float :=
  (Binary.remainder (.ofFloat x) (.ofFloat y)).toFloat

/-- The least whole number that is not smaller. -/
def nextWhole (x : Float) : Float := (Binary.ceiling (.ofFloat x)).toFloat

/-- The same number in 64 bits. -/
def widen (x : Float32) : Float := (Binary.ofFloat32 x).toFloat

/-- The nearest number in 32 bits. -/
def narrow (x : Float) : Float32 := (Binary.ofFloat x).toFloat32

end Metronome
