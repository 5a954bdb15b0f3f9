import Metronome.Yaml.Token

/-!
# Nodes

The tree that a document holds, and what stands in front of a node: its name and its kind. A scalar
keeps its tag; tags of collections are checked and not kept.

An alias stands for the slot of its anchor. The slot of a new name is the number of names so far,
and a name that is used again takes the slot that a new name would take, so that the next new name
takes it over.
-/

namespace Metronome.Yaml

/-- A part of a document. -/
inductive Node
  /-- A scalar and its tag. -/
  | scalar (s : Scalar) (tag : Option Tag)
  /-- Nodes in a row. -/
  | sequence (items : List Node)
  /-- Keys and their values. -/
  | mapping (entries : List (Node × Node))
  /-- The node in a slot. -/
  | alias (slot : Nat)

/-- The node where none is written. -/
def Node.empty : Node := .scalar .empty none

/-- What is known of the nodes with a name. -/
structure Anchors where
  /-- The slot of each name. -/
  slots : List (List Char × Nat)
  /-- What is in a slot: a scalar and its tag, or none for a collection. Earlier entries count
  before later ones. -/
  targets : List (Nat × Option (Scalar × Option Tag))

namespace Anchors

/-- No node has a name. -/
def empty : Anchors := ⟨[], []⟩

/-- Gives a node its name, if it has one. -/
def define (a : Anchors) (name : Option (List Char)) (target : Option (Scalar × Option Tag)) :
    Anchors :=
  match name with
  | none => a
  | some name =>
    let slot := a.slots.length
    ⟨(name, slot) :: a.slots.filter (fun s => s.1 != name), (slot, target) :: a.targets⟩

end Anchors

/-- The prefixes of tags that handles are short for. -/
abbrev Handles := List (List Char × List UInt8)

namespace Handles

/-- The handles that need no directive. -/
def standard : Handles := [(['!'], [0x21]), (['!', '!'], "tag:yaml.org,2002:".toUTF8.toList)]

/-- The tag that a written one stands for. -/
def resolve? (h : Handles) (t : WrittenTag) : Option Tag :=
  if t.handle.isEmpty then some ⟨t.suffix⟩
  else (h.lookup t.handle).map fun expansion => ⟨expansion ++ t.suffix⟩

end Handles

/-- What is written in front of a node: its name and its kind, in either order. -/
structure Properties where
  /-- The name. -/
  anchor : Option (List Char)
  /-- The kind. -/
  tag : Option WrittenTag

namespace Properties

/-- Whether something is written in front of the node. -/
def isSome (p : Properties) : Bool := p.anchor.isSome || p.tag.isSome

/-- Takes what is written in front of a node. -/
def take : List Token → Properties × List Token
  | .anchor a :: .tag t :: ts => (⟨some a, some t⟩, ts)
  | .tag t :: .anchor a :: ts => (⟨some a, some t⟩, ts)
  | .anchor a :: ts => (⟨some a, none⟩, ts)
  | .tag t :: ts => (⟨none, some t⟩, ts)
  | ts => (⟨none, none⟩, ts)

end Properties

end Metronome.Yaml
