import Metronome.Tick
import Metronome.Clock

/-!
# Confirmed ticks

The newest server tick that is known to hold for the local world, and how far the world has come
toward it. A fraction of one is a completed tick; a smaller one lies between the tick before and
this one.

`snap` removes the jitter around tick boundaries: progress near a boundary becomes the boundary.
-/

namespace Metronome

/-- A tick and the progress toward it. -/
structure Confirmed (φ : Type) where
  /-- The tick. -/
  tick : Tick
  /-- The part of it that is done. -/
  fraction : φ

namespace Confirmed

variable {φ : Type} [Fraction φ]

/-- No tick has been confirmed. -/
def invalid : Confirmed φ := ⟨Tick.invalid, 1⟩

instance : Inhabited (Confirmed φ) := ⟨invalid⟩

/-- A completed tick. -/
def whole (tick : Tick) : Confirmed φ := ⟨tick, 1⟩

/-- A tick of which a part is done. A fraction that is no positive number, or more than one, counts
as one. -/
def inProgress (tick : Tick) (fraction : φ) : Confirmed φ :=
  ⟨tick, if Fraction.isFinite fraction ∧ 0 < fraction ∧ fraction < 1 then fraction else 1⟩

/-- Whether a tick has been confirmed. -/
def isValid (c : Confirmed φ) : Bool := c.tick.isValid

/-- Whether the tick is under way. -/
def isPartial (c : Confirmed φ) : Bool := decide (c.fraction < 1)

/-- The last completed tick, and the progress past it. -/
def completed (c : Confirmed φ) : Except Fault (Tick × φ) := do
  if c.isPartial then return (← c.tick.prev, c.fraction) else return (c.tick, 0)

/-- A position less than `threshold` of a tick from a tick boundary becomes that boundary, as a
completed tick. -/
def snap (c : Confirmed φ) (threshold : φ) : Except Fault (Confirmed φ) := do
  if !c.isValid then return c
  let (completed, progress) ← c.completed
  if progress < threshold then return whole completed
  else if 1 - threshold < progress then return whole (← completed.next)
  else return c

/-- The position as it is written in a report. -/
def text (c : Confirmed φ) : String := c.tick.text ++ "@" ++ Fraction.text c.fraction

end Confirmed

end Metronome
