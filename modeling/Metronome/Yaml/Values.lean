import Metronome.Decimal.Reading
import Metronome.Yaml.Document

/-!
# Values of scalars

What a scalar means where a number, a truth value or one of several names is expected. A number or a
truth value is written plainly, or as literal lines with the tag of its kind.
-/

namespace Metronome.Yaml

/-- The text of a scalar that may be taken as a value of the kind with the given tag. -/
def valueText? (kind : String) : Scalar × Option Tag → Option (List Char)
  | (⟨.plain, text⟩, _) => some text
  | (⟨.literal, text⟩, tag) => if tag == some (.ofName kind) then some text else none
  | _ => none

/-- Digits without leading zeros, or digits of another base after its sign. -/
def natural? : List Char → Option Nat
  | '0' :: 'x' :: ds => Numeral.value? 16 ds
  | '0' :: 'o' :: ds => Numeral.value? 8 ds
  | '0' :: 'b' :: ds => Numeral.value? 2 ds
  | '0' :: _ :: _ => none
  | ds => Numeral.value? 10 ds

/-- A whole number after an optional sign. -/
def integer? : List Char → Option Int
  | '-' :: cs => (natural? cs).map fun n => -(n : Int)
  | '+' :: cs => (natural? cs).map fun n => (n : Int)
  | cs => (natural? cs).map fun n => (n : Int)

/-- The tag of whole numbers. -/
def intTag : String := "tag:yaml.org,2002:int"

/-- A signed word of 32 bits. -/
def int32? (s : Scalar × Option Tag) : Option Int32 := do
  let n ← integer? (← valueText? intTag s)
  if -2147483648 ≤ n ∧ n ≤ 2147483647 then some (Int32.ofInt n) else none

/-- A word of 32 bits, without a minus sign. -/
def uint32? (s : Scalar × Option Tag) : Option UInt32 := do
  let text ← valueText? intTag s
  let n ← if text.head? == some '-' then none else integer? text
  if n ≤ 4294967295 then some n.toNat.toUInt32 else none

/-- The infinities and what is no number, after an optional plus sign where one makes sense. -/
def special? (cs : List Char) : Option Float :=
  let inf := [".inf", ".Inf", ".INF"]
  let text := String.ofList cs
  if inf.contains text || inf.any (fun s => "+" ++ s == text) then
    some (Binary.infinite false).toFloat
  else if inf.any (fun s => "-" ++ s == text) then some (Binary.infinite true).toFloat
  else if [".nan", ".NaN", ".NAN"].contains text then some Binary.nan.toFloat
  else none

/-- A number of 64 bits that is not too large for them, or a special one. -/
def float? (s : Scalar × Option Tag) : Option Float := do
  let text ← valueText? "tag:yaml.org,2002:float" s
  match special? text with
  | some x => return x
  | none =>
    let x ← Decimal.float? text
    if x.isFinite then return x else none

/-- A truth value. -/
def bool? (s : Scalar × Option Tag) : Option Bool := do
  let text := String.ofList (← valueText? "tag:yaml.org,2002:bool" s)
  if ["true", "True", "TRUE"].contains text then some true
  else if ["false", "False", "FALSE"].contains text then some false
  else none

/-- Whether a scalar says nothing. -/
def isNull (s : Scalar) : Bool :=
  s.style == .plain && ["", "~", "null", "Null", "NULL"].contains (String.ofList s.text)

/-- One of several names: as the text of a scalar, or as the tag of one that says nothing. -/
def choice? {α : Type} (choices : List (String × α)) (s : Scalar × Option Tag) : Option α :=
  match s.2.bind Tag.choice? with
  | none => choices.lookup (String.ofList s.1.text)
  | some name => if isNull s.1 then choices.lookup name else none

end Metronome.Yaml
