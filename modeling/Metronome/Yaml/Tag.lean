import Metronome.Numeral
import Metronome.Yaml.Source

/-!
# Tags

A tag says what kind of thing a node is. It is written as a handle and a suffix, or in full between
angle brackets, and stands for the bytes of a name: the prefix that the handle is short for, and the
suffix.
-/

namespace Metronome.Yaml

/-- The name of a kind of thing. -/
structure Tag where
  /-- Its bytes. -/
  bytes : List UInt8
deriving DecidableEq

/-- The tag with a given name. -/
def Tag.ofName (name : String) : Tag := ⟨name.toUTF8.toList⟩

/-- The name, without a leading exclamation mark. -/
def Tag.choice? (t : Tag) : Option String :=
  let bytes := match t.bytes with
    | 0x21 :: rest => rest
    | bytes => bytes
  String.fromUTF8? ⟨bytes.toArray⟩

/-- A tag as it is written. -/
structure WrittenTag where
  /-- What the tag's prefix is called here; empty for a tag in full. -/
  handle : List Char
  /-- The bytes after the prefix. -/
  suffix : List UInt8

/-- The signs that may stand in a suffix beside letters, digits and escapes. -/
def suffixSigns : List Char := "-_;/?:@&=+$.!~*'()".toList

/-- Further signs that may stand in a tag in full or in a prefix. -/
def fullSigns : List Char := [',', '[', ']']

/-- The byte of an escape. -/
def escapedByte? : List Placed → Option (Nat × List Placed)
  | p :: q :: r :: rest =>
    if p.char == '%' then (Numeral.value? 16 [q.char, r.char]).map fun n => (n, rest) else none
  | _ => none

/-- How many bytes follow the first byte of a character. -/
def trailing? (first : Nat) : Option Nat :=
  if first < 0x80 then some 0
  else if 0xc0 ≤ first && first < 0xe0 then some 1
  else if 0xe0 ≤ first && first < 0xf0 then some 2
  else if 0xf0 ≤ first && first < 0xf8 then some 3
  else none

/-- Escaped bytes that go on with a character. -/
def trailingBytes? : Nat → List Placed → Option (List UInt8 × List Placed)
  | 0, source => some ([], source)
  | count + 1, source => do
    let (byte, source) ← escapedByte? source
    if byte / 64 = 2 then
      let (more, source) ← trailingBytes? count source
      return (byte.toUInt8 :: more, source)
    else none

/-- The bytes of a suffix or a prefix. -/
def tagBytes? (full : Bool) : Nat → List Placed → Option (List UInt8 × List Placed)
  | 0, _ => none
  | _ + 1, [] => some ([], [])
  | fuel + 1, p :: rest =>
    if p.char == '%' then do
      let (first, source) ← escapedByte? (p :: rest)
      let (trail, source) ← trailingBytes? (← trailing? first) source
      let (more, source) ← tagBytes? full fuel source
      return (first.toUInt8 :: trail ++ more, source)
    else if p.char.isAlphanum || suffixSigns.contains p.char ||
        (full && fullSigns.contains p.char) then
      (tagBytes? full fuel rest).map fun (more, source) => (p.char.toNat.toUInt8 :: more, source)
    else some ([], p :: rest)

/-- The bytes of a suffix or a prefix that must not be empty. -/
def someTagBytes? (full : Bool) (source : List Placed) : Option (List UInt8 × List Placed) := do
  let (bytes, rest) ← tagBytes? full (source.length + 1) source
  if bytes.isEmpty then none else return (bytes, rest)

/-- A handle after its first exclamation mark: the letters between the marks, and whether the second
one is there. -/
def handleBody (source : List Placed) : List Char × Bool × List Placed :=
  let (word, source) := span isWordChar source
  if startsWith ['!'] source then (word, true, source.drop 1) else (word, false, source)

/-- A tag after its first exclamation mark, without a look at what follows it. A lone mark is a tag
in full. -/
def tagBody? (source : List Placed) : Option (WrittenTag × List Placed) :=
  if startsWith ['<'] source then do
    let (bytes, source) ← someTagBytes? true (source.drop 1)
    if startsWith ['>'] source then return (⟨[], bytes⟩, source.drop 1) else none
  else
    let (word, closed, rest) := handleBody source
    if closed then
      (someTagBytes? false rest).map fun (bytes, rest) => (⟨'!' :: (word ++ ['!']), bytes⟩, rest)
    else do
      let (more, rest) ← tagBytes? false (rest.length + 1) rest
      let suffix := word.map (fun c => c.toNat.toUInt8) ++ more
      if suffix.isEmpty then return (⟨[], [0x21]⟩, rest) else return (⟨['!'], suffix⟩, rest)

/-- A tag after its first exclamation mark. A blank or a break follows it, or a comma inside of
brackets. -/
def tag? (inFlow : Bool) (source : List Placed) : Option (WrittenTag × List Placed) := do
  let (tag, source) ← tagBody? source
  if atGap source || (inFlow && startsWith [','] source) then return (tag, source) else none

/-- The name of an anchor or an alias after its sign. -/
def anchorName? (source : List Placed) : Option (List Char × List Placed) :=
  let (name, rest) := span isWordChar source
  if !name.isEmpty && (atGap rest || startsWith ("?:,]\x7d%@\x60".toList) rest) then
    some (name, rest)
  else none

end Metronome.Yaml
