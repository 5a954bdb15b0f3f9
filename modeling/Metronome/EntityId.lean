import Metronome.Numeral

/-!
# Entity identifiers

An identifier is a number of 128 bits. It is written as 32 hexadecimal digits in five groups. Read
are also the digits without hyphens, the groups in braces, and the groups after `urn:uuid:`, with
digits of either case.
-/

namespace Metronome

/-- The identifier of an entity. -/
structure EntityId where
  /-- Its bits. -/
  bits : BitVec 128
deriving DecidableEq

namespace EntityId

/-- The `n`-th identifier that is handed out: random bits with a running number in the last ones. -/
def handedOut (n : Nat) : EntityId := ⟨BitVec.ofNat 128 (0x7b1dc2a96f5e4d038a9470e1c35b0000 + n)⟩

/-- The 32 digits. -/
def digits (e : EntityId) : List Char :=
  (List.range 32).map fun i => Numeral.digit (e.bits.toNat / Nat.pow 16 (31 - i) % 16)

/-- The lengths of the groups. -/
def groups : List Nat := [8, 4, 4, 4, 12]

/-- The digits in groups, with hyphens between them. -/
def grouped : List Nat → List Char → List Char
  | [], _ => []
  | [n], cs => cs.take n
  | n :: ns, cs => cs.take n ++ '-' :: grouped ns (cs.drop n)

/-- The written form. -/
def text (e : EntityId) : String := String.ofList (grouped groups e.digits)

/-- The identifier that the digits stand for. -/
def ofDigits? (cs : List Char) : Option EntityId :=
  if cs.length = 32 then (Numeral.value? 16 cs).map fun n => ⟨BitVec.ofNat 128 n⟩ else none

/-- The digits of groups with hyphens between them. -/
def ungrouped? : List Nat → List Char → Option (List Char)
  | [], cs => if cs.isEmpty then some [] else none
  | [n], cs => if cs.length = n then some cs else none
  | n :: ns, cs =>
    if n ≤ cs.length then
      match cs.drop n with
      | '-' :: rest => (ungrouped? ns rest).map fun more => cs.take n ++ more
      | _ => none
    else none

/-- The groups inside an accepted frame: none, braces, or a name's lead. -/
def unframed? (cs : List Char) : Option (List Char) :=
  let urn := "urn:uuid:".toList
  if cs.length = 36 then some cs
  else if cs.length = 38 && cs.head? == some '\x7b' && cs.getLast? == some '\x7d' then
    some (cs.drop 1).dropLast
  else if cs.length = 45 && urn.isPrefixOf cs then some (cs.drop 9)
  else none

/-- The identifier that a text stands for. -/
def ofText? (text : String) : Option EntityId :=
  let cs := text.toList
  if cs.length = 32 then ofDigits? cs
  else do ofDigits? (← ungrouped? groups (← unframed? cs))

end EntityId

end Metronome
