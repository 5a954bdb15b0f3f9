import Metronome.Yaml.Token.Lexer
import Metronome.Yaml.Node.Reader

/-!
# Documents

A text with one document in it (`Document.ofText?`): its directives, its content, and its end. A
text without a token holds no document, and a text with a second one is refused.
-/

namespace Metronome.Yaml

/-- A document: its content, and what its aliases stand for. -/
structure Document where
  /-- The content. -/
  root : Node
  /-- The nodes with a name. -/
  anchors : Anchors

namespace Document

/-- What the directives in front of a document say, and the tokens after them. -/
structure Prologue where
  /-- Whether a version has been given. -/
  hasVersion : Bool
  /-- The handles that have been given. -/
  handles : Handles

/-- Takes the directives. None may come twice, and the version is one that is understood. -/
def prologue? (p : Prologue) : List Token → Option (Prologue × List Token)
  | .version major minor :: ts =>
    if !p.hasVersion && major == 1 && (minor == 1 || minor == 2) then
      prologue? { p with hasVersion := true } ts
    else none
  | .handle name expansion :: ts =>
    if (p.handles.lookup name).isNone then
      prologue? { p with handles := (name, expansion) :: p.handles } ts
    else none
  | ts => some (p, ts)

/-- Whether a document that has been started is left empty. -/
def isLeftOut : List Token → Bool
  | [] => true
  | .version _ _ :: _ => true
  | .handle _ _ :: _ => true
  | .documentStart :: _ => true
  | .documentEnd :: _ => true
  | _ => false

/-- The content of a document. -/
def content? (h : Handles) (ts : List Token) : Option (Node × Reader) :=
  Reader.nodeUnless? h (4 * ts.length + 4) (isLeftOut ts) .block ⟨ts, .empty⟩

/-- The start of a document and its content. Directives need a marker after them. -/
def start? : List Token → Option (Node × Reader)
  | [] => none
  | t :: ts =>
    match t with
    | .documentStart => content? .standard ts
    | .version _ _ => declared (t :: ts)
    | .handle _ _ => declared (t :: ts)
    | .documentEnd => none
    | t => content? .standard (t :: ts)
where
  /-- A document with directives. -/
  declared (ts : List Token) : Option (Node × Reader) := do
    match ← prologue? ⟨false, []⟩ ts with
    | (p, .documentStart :: ts) => content? (p.handles ++ .standard) ts
    | _ => none

/-- The only document of some tokens, and none if there is no token at all. -/
def ofTokens? (ts : List Token) : Option (Option Document) := do
  if ts.isEmpty then return none
  else
    let (root, r) ← start? ts
    let rest := r.tokens.dropWhile fun
      | .documentEnd => true
      | _ => false
    if rest.isEmpty then return some ⟨root, r.anchors⟩ else none

/-- The only document of a text, and none if the text is empty. -/
def ofText? (text : String) : Option (Option Document) := Token.ofText? text >>= ofTokens?

/-- The scalar that a node is or stands for, and its tag. -/
def scalar? (d : Document) : Node → Option (Scalar × Option Tag)
  | .scalar s tag => some (s, tag)
  | .alias slot => (d.anchors.targets.lookup slot).join
  | _ => none

end Document

end Metronome.Yaml
