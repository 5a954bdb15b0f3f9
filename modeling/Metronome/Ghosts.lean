import Metronome.EntityId
import Metronome.TickSet

/-!
# Predicted entities

A client predicts some entities ahead of the server. Each remembers the tick of the authoritative
state it was last given, and whether it takes part in the next invocation. A replay first stops them
all and then lets each join once it reaches the tick of its state.
-/

namespace Metronome

/-- The replay state of a predicted entity. -/
structure Ghost where
  /-- The tick of the authoritative state applied last; invalid before the first. -/
  base : Tick
  /-- Whether the entity takes part in the next invocation. -/
  simulate : Bool
deriving DecidableEq

namespace Ghost

/-- An entity that was given no state yet. -/
def fresh : Ghost := ⟨Tick.invalid, true⟩

/-- Whether an invocation that starts at `tick` simulates the entity. One without state has nothing
to wait for. -/
def joinsAt (g : Ghost) (tick : Tick) : Except Fault Bool :=
  if g.base.isValid then return !(← g.base.isNewerThan tick) else return true

/-- Lets the entity join an invocation that starts at `tick`. -/
def enableFrom (g : Ghost) (tick : Tick) : Except Fault Ghost := do
  if ← g.joinsAt tick then return { g with simulate := true } else return g

end Ghost

/-- The predicted entities of a client, in the order in which they were registered. -/
structure Ghosts where
  /-- The entities by identifier. -/
  entries : List (EntityId × Ghost)

namespace Ghosts

/-- Why authoritative state is refused. -/
inductive Error
  /-- There is no such entity. -/
  | unknown (id : EntityId)
  /-- The state is of no tick. -/
  | invalidTick
deriving DecidableEq

/-- The report of a refusal. -/
def Error.message : Error → String
  | unknown id => "unknown predicted ghost EntityId(" ++ id.text ++ ")"
  | invalidTick => "snapshot tick is invalid"

/-- No entity. -/
def empty : Ghosts := ⟨[]⟩

/-- The entity of an identifier. -/
def get? (g : Ghosts) (id : EntityId) : Option Ghost := g.entries.lookup id

/-- How many entities there are. -/
def size (g : Ghosts) : Nat := g.entries.length

/-- Whether there is no entity. -/
def isEmpty (g : Ghosts) : Bool := g.entries.isEmpty

/-- Registers an entity under an identifier that is not in use. -/
def spawn (g : Ghosts) (id : EntityId) : Ghosts := ⟨g.entries ++ [(id, Ghost.fresh)]⟩

/-- Removes an entity. -/
def despawn (g : Ghosts) (id : EntityId) : Ghosts := ⟨g.entries.filter fun e => e.1 != id⟩

/-- Changes every entity. -/
def map (f : Ghost → Ghost) (g : Ghosts) : Ghosts :=
  ⟨g.entries.map fun (id, ghost) => (id, f ghost)⟩

/-- Changes the entity of an identifier. -/
def modify (f : Ghost → Ghost) (g : Ghosts) (id : EntityId) : Ghosts :=
  ⟨g.entries.map fun (other, ghost) => (other, if other = id then f ghost else ghost)⟩

/-- Gives an entity the authoritative state of a tick, and records the tick for the next burst. -/
def applySnapshot (g : Ghosts) (id : EntityId) (tick : Tick) (history : History) :
    Except Error (Ghosts × History) :=
  if !tick.isValid then .error .invalidTick
  else if (g.get? id).isNone then .error (.unknown id)
  else .ok (g.modify (fun ghost => { ghost with base := tick }) id, history.recordApplied tick)

/-- The entities that take part in the next invocation. -/
def simulating (g : Ghosts) : List EntityId := (g.entries.filter fun e => e.2.simulate).map Prod.fst

/-- Stops every entity. -/
def disableAll (g : Ghosts) : Ghosts := g.map fun ghost => { ghost with simulate := false }

/-- Lets every entity take part. -/
def enableAll (g : Ghosts) : Ghosts := g.map fun ghost => { ghost with simulate := true }

/-- Lets those entities join whose state is not newer than `tick`. -/
def enableFrom (g : Ghosts) (tick : Tick) : Except Fault Ghosts := do
  return ⟨← g.entries.mapM fun (id, ghost) => do return (id, ← ghost.enableFrom tick)⟩

end Ghosts

end Metronome
