import Metronome.Yaml.Node

/-!
# Reading nodes

A node out of the tokens (`Reader.node?`), by recursive descent. Each call takes one unit of fuel.
Of nested calls at most three pass before one takes a token, so four units for each token are
enough.
-/

namespace Metronome.Yaml

/-- Where a node stands, which says how it may be written. -/
inductive Site
  /-- Inside of brackets; there is no indentation. -/
  | flow
  /-- In the document or in an item of a sequence. -/
  | block
  /-- In a mapping by indentation; the items of a sequence need not be indented further. -/
  | entry
deriving DecidableEq

/-- The tokens to come and the names so far. -/
structure Reader where
  /-- The tokens to come. -/
  tokens : List Token
  /-- The names so far. -/
  anchors : Anchors

namespace Reader

/-- The reader at other tokens. -/
def moveTo (r : Reader) (tokens : List Token) : Reader := { r with tokens }

/-- Whether an item by indentation is left out. -/
def endsItem : List Token → Bool
  | .item :: _ => true
  | .blockEnd :: _ => true
  | _ => false

/-- Whether a key or a value by indentation is left out. -/
def endsEntry : List Token → Bool
  | .key :: _ => true
  | .value :: _ => true
  | .blockEnd :: _ => true
  | _ => false

/-- Whether a node in brackets is left out. -/
def endsFlow (close : Token → Bool) : List Token → Bool
  | .comma :: _ => true
  | t :: _ => close t
  | [] => false

/-- The end of a sequence in brackets. -/
def closesSequence : Token → Bool
  | .flowSequenceEnd => true
  | _ => false

/-- The end of a mapping in braces. -/
def closesMapping : Token → Bool
  | .flowMappingEnd => true
  | _ => false

/-- Whether the value of a key follows. -/
def atValue : List Token → Bool
  | .value :: _ => true
  | _ => false

/-- What follows the comma before all items but the first. -/
def afterComma? (isFirst : Bool) (ts : List Token) : Option (List Token) :=
  match isFirst, ts with
  | true, ts => some ts
  | false, .comma :: ts => some ts
  | false, _ => none

mutual

/-- A node. -/
def node? (h : Handles) : Nat → Site → Reader → Option (Node × Reader)
  | 0, _, _ => none
  | fuel + 1, site, r =>
    match r.tokens with
    | .alias name :: ts => (r.anchors.slots.lookup name).map fun slot => (.alias slot, r.moveTo ts)
    | ts => do
      let (properties, ts) := Properties.take ts
      let tag ← properties.tag.mapM h.resolve?
      let named (target : Option (Scalar × Option Tag)) (ts : List Token) : Reader :=
        ⟨ts, r.anchors.define properties.anchor target⟩
      match ts, site with
      | .item :: _, .entry =>
        (items? h fuel false (named none ts)).map fun (ns, r) => (.sequence ns, r)
      | .scalar s :: ts, _ => return (.scalar s tag, named (some (s, tag)) ts)
      | .flowSequence :: ts, _ =>
        (flowItems? h fuel true (named none ts)).map fun (ns, r) => (.sequence ns, r)
      | .flowMapping :: ts, _ =>
        (flowEntries? h fuel true (named none ts)).map fun (es, r) => (.mapping es, r)
      | .blockSequence :: ts, .block =>
        (items? h fuel true (named none ts)).map fun (ns, r) => (.sequence ns, r)
      | .blockSequence :: ts, .entry =>
        (items? h fuel true (named none ts)).map fun (ns, r) => (.sequence ns, r)
      | .blockMapping :: ts, .block =>
        (entries? h fuel (named none ts)).map fun (es, r) => (.mapping es, r)
      | .blockMapping :: ts, .entry =>
        (entries? h fuel (named none ts)).map fun (es, r) => (.mapping es, r)
      | ts, _ =>
        if properties.isSome then return (.scalar .empty tag, named (some (.empty, tag)) ts)
        else none

/-- A node, or the empty one where it is left out. -/
def nodeUnless? (h : Handles) : Nat → Bool → Site → Reader → Option (Node × Reader)
  | 0, _, _, _ => none
  | fuel + 1, isLeftOut, site, r => if isLeftOut then some (.empty, r) else node? h fuel site r

/-- Items by indentation. Only those of a sequence that is indented have an end of their own. -/
def items? (h : Handles) : Nat → (isIndented : Bool) → Reader → Option (List Node × Reader)
  | 0, _, _ => none
  | fuel + 1, isIndented, r =>
    match r.tokens with
    | .item :: ts => do
      let isLeftOut := endsItem ts || (!isIndented && endsEntry ts)
      let (n, r) ← nodeUnless? h fuel isLeftOut .block (r.moveTo ts)
      let (ns, r) ← items? h fuel isIndented r
      return (n :: ns, r)
    | ts =>
      match isIndented, ts with
      | false, ts => some ([], r.moveTo ts)
      | true, .blockEnd :: ts => some ([], r.moveTo ts)
      | true, _ => none

/-- Keys and values by indentation. -/
def entries? (h : Handles) : Nat → Reader → Option (List (Node × Node) × Reader)
  | 0, _ => none
  | fuel + 1, r =>
    match r.tokens with
    | .key :: ts => do
      let (k, r) ← nodeUnless? h fuel (endsEntry ts) .entry (r.moveTo ts)
      let ts := if atValue r.tokens then r.tokens.drop 1 else r.tokens
      let (v, r) ← nodeUnless? h fuel (!atValue r.tokens || endsEntry ts) .entry (r.moveTo ts)
      let (es, r) ← entries? h fuel r
      return ((k, v) :: es, r)
    | .blockEnd :: ts => some ([], r.moveTo ts)
    | _ => none

/-- Items in brackets. An item may be a mapping of one key without braces. -/
def flowItems? (h : Handles) : Nat → (isFirst : Bool) → Reader → Option (List Node × Reader)
  | 0, _, _ => none
  | fuel + 1, isFirst, r =>
    match r.tokens with
    | .flowSequenceEnd :: ts => some ([], r.moveTo ts)
    | ts => do
      match ← afterComma? isFirst ts with
      | .flowSequenceEnd :: ts => return ([], r.moveTo ts)
      | .key :: ts => do
        let (e, r) ← pair? h fuel (r.moveTo ts)
        let (ns, r) ← flowItems? h fuel false r
        return (.mapping [e] :: ns, r)
      | ts => do
        let (n, r) ← node? h fuel .flow (r.moveTo ts)
        let (ns, r) ← flowItems? h fuel false r
        return (n :: ns, r)

/-- A key and its value in brackets without braces. Where the key is left out, so is the sign after
it. -/
def pair? (h : Handles) : Nat → Reader → Option ((Node × Node) × Reader)
  | 0, _ => none
  | fuel + 1, r => do
    let isLeftOut := endsFlow closesSequence r.tokens || atValue r.tokens
    let (k, r) ← nodeUnless? h fuel isLeftOut .flow
      (if isLeftOut then r.moveTo (r.tokens.drop 1) else r)
    let ts := if atValue r.tokens then r.tokens.drop 1 else r.tokens
    let (v, r) ← nodeUnless? h fuel (!atValue r.tokens || endsFlow closesSequence ts) .flow
      (r.moveTo ts)
    return ((k, v), r)

/-- Keys and values in braces. A key without a sign of its own has no value. -/
def flowEntries? (h : Handles) :
    Nat → (isFirst : Bool) → Reader → Option (List (Node × Node) × Reader)
  | 0, _, _ => none
  | fuel + 1, isFirst, r =>
    match r.tokens with
    | .flowMappingEnd :: ts => some ([], r.moveTo ts)
    | ts => do
      match ← afterComma? isFirst ts with
      | .flowMappingEnd :: ts => return ([], r.moveTo ts)
      | .key :: ts => do
        let (k, r) ← nodeUnless? h fuel (endsFlow closesMapping ts || atValue ts) .flow
          (r.moveTo ts)
        let ts := if atValue r.tokens then r.tokens.drop 1 else r.tokens
        let (v, r) ← nodeUnless? h fuel (!atValue r.tokens || endsFlow closesMapping ts) .flow
          (r.moveTo ts)
        let (es, r) ← flowEntries? h fuel false r
        return ((k, v) :: es, r)
      | ts => do
        let (k, r) ← node? h fuel .flow (r.moveTo ts)
        let (es, r) ← flowEntries? h fuel false r
        return ((k, .empty) :: es, r)

end

end Reader

end Metronome.Yaml
