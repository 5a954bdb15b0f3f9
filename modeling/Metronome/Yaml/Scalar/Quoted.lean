import Metronome.Numeral
import Metronome.Yaml.Scalar

/-!
# Quoted scalars

Between single quotes only a doubled quote is special. Between double quotes a backslash starts an
escape, or takes the meaning from the line break behind it.
-/

namespace Metronome.Yaml

/-- The character that a short escape stands for. -/
def shortEscape? : Char → Option Char
  | '0' => some '\x00'
  | 'a' => some '\x07'
  | 'b' => some '\x08'
  | 't' => some '\t'
  | '\t' => some '\t'
  | 'n' => some '\n'
  | 'v' => some '\x0b'
  | 'f' => some '\x0c'
  | 'r' => some '\r'
  | 'e' => some '\x1b'
  | ' ' => some ' '
  | '"' => some '"'
  | '/' => some '/'
  | '\\' => some '\\'
  | 'N' => some '\u0085'
  | '_' => some '\u00a0'
  | 'L' => some '\u2028'
  | 'P' => some '\u2029'
  | _ => none

/-- How many hexadecimal digits follow the letter of a long escape. -/
def escapeWidth? : Char → Option Nat
  | 'x' => some 2
  | 'u' => some 4
  | 'U' => some 8
  | _ => none

/-- The character of a number, unless it is half of a pair or out of range. -/
def charOf? (n : Nat) : Option Char := if n.isValidChar then some (Char.ofNat n) else none

/-- The character that an escape stands for, after its backslash. -/
def escape? : List Placed → Option (Char × List Placed)
  | [] => none
  | p :: rest =>
    match escapeWidth? p.char with
    | none => (shortEscape? p.char).map fun c => (c, rest)
    | some width => do
      let digits := (rest.take width).map Placed.char
      if digits.length < width then none
      else
        let c ← charOf? (← Numeral.value? 16 digits)
        return (c, rest.drop width)

/-- The text up to the closing quote. A marker of documents must not come before it. -/
def quotedText? (double : Bool) : Nat → List Placed → Option (List Char × List Placed)
  | 0, _ => none
  | _ + 1, [] => none
  | fuel + 1, p :: rest =>
    let after (gap : Gap) (source : List Placed) : Option (List Char × List Placed) := do
      let (gap, source) ← gap.extend? 0 source
      let (text, source) ← quotedText? double fuel source
      return (gap.fold ++ text, source)
    let keep (c : Char) (source : List Placed) : Option (List Char × List Placed) :=
      (quotedText? double fuel source).map fun (text, rest) => (c :: text, rest)
    if atMarker (p :: rest) then none
    else if isBlank p.char || isBreak p.char then after .none (p :: rest)
    else if double && p.char == '"' then some ([], rest)
    else if double && p.char == '\\' then
      if !rest.isEmpty && atLineEnd rest then after (.breaks none []) (rest.drop 1)
      else do
        let (c, rest) ← escape? rest
        keep c rest
    else if !double && p.char == '\'' then
      if startsWith ['\''] rest then keep '\'' (rest.drop 1) else some ([], rest)
    else keep p.char rest

/-- A scalar after its opening quote. -/
def quoted? (double : Bool) (source : List Placed) : Option (Scalar × List Placed) :=
  (quotedText? double (source.length + 1) source).map fun (text, rest) =>
    (⟨if double then .double else .single, text⟩, rest)

end Metronome.Yaml
