import Metronome.Tick

/-!
# Sets of ticks

A set of ticks has no order of its own; relative to a reference tick it is listed oldest first.
`History` holds the two sets that a prediction burst consumes: the ticks whose authoritative state
was applied, and the ticks that got new input.
-/

namespace Metronome

/-- A set of ticks. -/
structure TickSet where
  /-- Its members, in no particular order. -/
  ticks : List Tick
  /-- No member is listed twice. -/
  nodup : ticks.Nodup

namespace TickSet

/-- No tick. -/
def empty : TickSet := ⟨[], List.nodup_nil⟩

/-- Whether a tick is a member. -/
def contains (s : TickSet) (t : Tick) : Bool := s.ticks.contains t

/-- How many members there are. -/
def size (s : TickSet) : Nat := s.ticks.length

/-- Whether there is no member. -/
def isEmpty (s : TickSet) : Bool := s.ticks.isEmpty

/-- Adds a tick, valid or not. -/
def add (s : TickSet) (t : Tick) : TickSet :=
  if h : t ∈ s.ticks then s else ⟨t :: s.ticks, List.nodup_cons.2 ⟨h, s.nodup⟩⟩

/-- Adds a valid tick. -/
def insert (s : TickSet) (t : Tick) : TickSet := if t.isValid then s.add t else s

/-- Whether `insert` would change the set. -/
def isNew (s : TickSet) (t : Tick) : Bool := t.isValid && !s.contains t

/-- Adds all valid ticks of a list. -/
def insertAll (s : TickSet) (ts : List Tick) : TickSet := ts.foldl insert s

/-- The set of the ticks of a list. -/
def ofList (ts : List Tick) : TickSet := ts.foldl add empty

/-- Whether all members can be compared with `reference`. -/
def comparable (s : TickSet) (reference : Tick) : Bool :=
  reference.isValid && s.ticks.all Tick.isValid

/-- The older of two ticks relative to `reference`. -/
def older (reference a b : Tick) : Tick :=
  if reference.distance a ≤ reference.distance b then b else a

/-- The member that lies furthest behind `reference`. -/
def oldest (s : TickSet) (reference : Tick) : Except Fault (Option Tick) :=
  match s.ticks with
  | [] => .ok none
  | t :: ts =>
    if s.comparable reference then .ok (some (ts.foldl (older reference) t))
    else .error .comparingInvalid

/-- The members, the one furthest behind `reference` first. A single member is compared with
nothing. -/
def oldestFirst (s : TickSet) (reference : Tick) : Except Fault (List Tick) :=
  if s.size < 2 then .ok s.ticks
  else if s.comparable reference then
    .ok (s.ticks.mergeSort fun a b => decide (reference.distance b ≤ reference.distance a))
  else .error .comparingInvalid

@[simp] theorem ticks_empty : empty.ticks = [] := rfl

@[simp] theorem mem_add {s : TickSet} {t u : Tick} : u ∈ (s.add t).ticks ↔ u = t ∨ u ∈ s.ticks := by
  unfold add
  split
  · rename_i h
    constructor
    · exact Or.inr
    · rintro (rfl | hu)
      · exact h
      · exact hu
  · simp

theorem mem_insert {s : TickSet} {t u : Tick} (h : t.isValid = true) :
    u ∈ (s.insert t).ticks ↔ u = t ∨ u ∈ s.ticks := by
  simp [insert, h]

end TickSet

/-- The ticks that ask for a replay. -/
structure History where
  /-- Ticks at which authoritative state was applied to a predicted entity. -/
  applied : TickSet
  /-- Ticks that got new input. -/
  inputs : TickSet

namespace History

/-- Nothing asks for a replay. -/
def empty : History := ⟨TickSet.empty, TickSet.empty⟩

/-- Authoritative state of a tick was applied. -/
def recordApplied (h : History) (t : Tick) : History := { h with applied := h.applied.insert t }

/-- New input of a tick arrived. -/
def recordInput (h : History) (t : Tick) : History := { h with inputs := h.inputs.insert t }

end History

end Metronome
