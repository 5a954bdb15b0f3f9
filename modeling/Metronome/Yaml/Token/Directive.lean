import Metronome.Yaml.Token

/-!
# Directives

A line after a percent sign: the version of the format, or a handle that is short for the front part
of tags. Any other directive is refused.
-/

namespace Metronome.Yaml

/-- A part of a version: up to nine digits. -/
def versionNumber? (source : List Placed) : Option (Nat × List Placed) :=
  let (digits, rest) := span Char.isDigit source
  if digits.isEmpty || 9 < digits.length then none else some (Numeral.decimal digits, rest)

/-- The rest of a version directive after its name. -/
def versionDirective? (source : List Placed) : Option (Token × List Placed) := do
  let (major, source) ← versionNumber? (skipBlanks source)
  if startsWith ['.'] source then
    let (minor, source) ← versionNumber? (source.drop 1)
    return (.version major minor, source)
  else none

/-- The rest of a tag directive after its name. -/
def handleDirective? (source : List Placed) : Option (Token × List Placed) := do
  let source := skipBlanks source
  if startsWith ['!'] source then
    let (word, closed, source) := handleBody (source.drop 1)
    let name := '!' :: (word ++ if closed then ['!'] else [])
    if !closed && !word.isEmpty then none
    else if atGap source && !atLineEnd source then
      let (expansion, source) ← someTagBytes? true (skipBlanks source)
      if atGap source then return (.handle name expansion, source) else none
    else none
  else none

/-- A directive after its percent sign. -/
def directive? (source : List Placed) : Option (Token × List Placed) := do
  let (name, source) := span isWordChar source
  if atGap source then
    let (token, source) ←
      match String.ofList name with
      | "YAML" => versionDirective? source
      | "TAG" => handleDirective? source
      | _ => none
    return (token, ← nextLine? source)
  else none

end Metronome.Yaml
