import Metronome.Yaml.Token

/-!
# Layout

What has been read of a text, with the collections that are open by indentation and the nodes that
may still turn out to be keys.

A key is not marked at its start, so every node that could be one is kept as a candidate. Its mark
is put in when the colon comes, before the tokens that were read since (`Lexer.insert`).
-/

namespace Metronome.Yaml

/-- A node that a colon may turn out to make a key. -/
structure Candidate where
  /-- How many tokens stand before the node. -/
  position : Nat
  /-- Where the node starts. -/
  start : Placed
  /-- Whether nothing but a key can stand there. -/
  isRequired : Bool

/-- A key is on one line with its colon, and not more than 1024 characters before it. -/
def Candidate.reaches (c : Candidate) (p : Placed) : Bool :=
  p.line ≤ c.start.line && p.index ≤ c.start.index + 1024

/-- What has been read, and what the next part depends on. -/
structure Lexer where
  /-- The tokens so far, the newest first. -/
  tokens : List Token
  /-- The columns of the open collections by indentation, the innermost first. -/
  indents : List Nat
  /-- Whether a key may start here. -/
  allowsKey : Bool
  /-- The candidate for a key in the innermost brackets. -/
  candidate : Option Candidate
  /-- The candidates around each of the open brackets, the innermost first. -/
  around : List (Option Candidate)

namespace Lexer

/-- Nothing is read. -/
def start : Lexer := ⟨[], [], true, none, []⟩

/-- Whether brackets are open. Indentation does not count inside of them. -/
def inFlow (l : Lexer) : Bool := !l.around.isEmpty

/-- The least column at which the content of the innermost collection may stand. -/
def floor (l : Lexer) : Nat := l.indents.head?.elim 0 (· + 1)

/-- Appends a token. -/
def push (l : Lexer) (t : Token) : Lexer := { l with tokens := t :: l.tokens }

/-- Puts tokens in after the first `position` ones. -/
def insert (l : Lexer) (position : Nat) (ts : List Token) : Lexer :=
  let newer := l.tokens.length - position
  { l with tokens := l.tokens.take newer ++ ts.reverse ++ l.tokens.drop newer }

/-- A key or an item at a new column opens a collection. -/
def opens (l : Lexer) (column : Nat) : Bool := !l.inFlow && decide (l.floor ≤ column)

/-- Opens a collection by indentation where the column is new. -/
def indent (l : Lexer) (column : Nat) (t : Token) : Lexer :=
  if l.opens column then { l.push t with indents := column :: l.indents } else l

/-- Closes the collections whose column fails a test, the innermost first. -/
def closeWhile (test : Nat → Bool) (l : Lexer) : Lexer :=
  let closed := (l.indents.takeWhile test).length
  { l with tokens := List.replicate closed .blockEnd ++ l.tokens, indents := l.indents.drop closed }

/-- Closes the collections that stand further to the right. -/
def dedent (l : Lexer) (column : Nat) : Lexer := if l.inFlow then l else l.closeWhile (column < ·)

/-- Closes all collections by indentation. -/
def dedentAll (l : Lexer) : Lexer := if l.inFlow then l else l.closeWhile fun _ => true

/-- Gives the candidate up, unless nothing but a key can stand there. -/
def dropCandidate (l : Lexer) : Option Lexer :=
  if l.candidate.any Candidate.isRequired then none else some { l with candidate := none }

/-- Makes the node that starts here the candidate, if a key may start here. -/
def nominate (l : Lexer) (p : Placed) : Option Lexer :=
  if l.allowsKey then do
    let l ← l.dropCandidate
    let isRequired := !l.inFlow && l.indents.head? == some p.column
    return { l with candidate := some ⟨l.tokens.length, p, isRequired⟩ }
  else some l

/-- A candidate, unless a place is out of its reach. -/
def expired (p : Placed) : Option Candidate → Option (Option Candidate)
  | none => some none
  | some c => if c.reaches p then some (some c) else if c.isRequired then none else some none

/-- Gives up the candidates that a place is out of reach of. -/
def expire (l : Lexer) (p : Placed) : Option Lexer := do
  return { l with candidate := ← expired p l.candidate, around := ← l.around.mapM (expired p) }

end Lexer

end Metronome.Yaml
