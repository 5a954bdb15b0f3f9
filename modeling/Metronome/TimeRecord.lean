import Metronome.Confirmed
import Metronome.StepFlags

/-!
# Frames and the shared time record

`Frame` is real time: the host advances it once per frame. `TimeRecord` is what the simulation reads
as "now": the driver that is running writes it, the systems inside its window read it.
-/

namespace Metronome

/-- The real time of a frame. -/
structure Frame (τ : Type) where
  /-- Seconds since the start. -/
  elapsed : τ
  /-- Seconds since the frame before. -/
  delta : τ

namespace Frame

variable {τ : Type} [Seconds τ]

/-- Before the first frame. -/
def start : Frame τ := ⟨0, 0⟩

/-- The frame that follows after `delta` seconds. -/
def advanced (f : Frame τ) (delta : τ) : Frame τ := ⟨f.elapsed + delta, delta⟩

end Frame

/-- The current time of a simulated world. -/
structure TimeRecord (τ φ : Type) where
  /-- The tick the simulation is at. -/
  serverTick : Tick
  /-- The progress toward it. -/
  serverFraction : φ
  /-- The tick that is shown of interpolated entities. -/
  shownTick : Tick
  /-- The progress toward it. -/
  shownFraction : φ
  /-- Where the invocation stands in its burst. -/
  flags : StepFlags
  /-- How many ticks the invocation covers. -/
  batch : UInt32
  /-- How many invocations of the prediction burst have begun. -/
  predictedIndex : UInt32
  /-- How many ticks the prediction burst replays. -/
  expectedTicks : UInt32
  /-- Seconds at the end of the invocation's window. -/
  elapsed : τ
  /-- How many ticks inputs are delayed. -/
  inputLatency : UInt32

namespace TimeRecord

variable {τ φ : Type} [Seconds τ] [Fraction φ]

/-- Before anything ran. -/
def start : TimeRecord τ φ where
  serverTick := Tick.invalid
  serverFraction := 1
  shownTick := Tick.invalid
  shownFraction := 1
  flags := StepFlags.none
  batch := 1
  predictedIndex := 0
  expectedTicks := 0
  elapsed := 0
  inputLatency := 0

/-- Whether the tick is under way. -/
def isPartial (t : TimeRecord τ φ) : Bool := decide (t.serverFraction < 1)

/-- Whether a prediction burst is running. -/
def inLoop (t : TimeRecord τ φ) : Bool := t.flags.contains StepFlags.inLoop

/-- Clears the flags of a prediction burst. -/
def clearBurst (t : TimeRecord τ φ) : TimeRecord τ φ :=
  { t with flags := t.flags.remove StepFlags.burstMask }

end TimeRecord

end Metronome
