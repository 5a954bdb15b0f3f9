import Metronome.Bracket
import Metronome.World

/-!
# Presentation time

Systems that run once per frame outside the simulation see a delta that follows the confirmed tick:
how far it moved since the frame presented last, times the length of a tick. Without an earlier
frame to measure from, and outside a game, they see the real delta. A frame in which time would not
move forward is skipped, and the next one measures from the last that ran.
-/

namespace Metronome

/-- What a presented frame shows. -/
structure Presented (τ φ : Type) where
  /-- The tick that is shown. -/
  tick : Tick
  /-- The progress toward it. -/
  fraction : φ
  /-- The time it covers. -/
  delta : τ
  /-- The ticks it covers. -/
  batch : UInt32

/-- The state of the presentation driver. -/
structure Presentation (τ φ : Type) where
  /-- The confirmed tick that the frame presented last measured up to. -/
  previous : Confirmed φ
  /-- The frame that is being presented. -/
  pending : Presented τ φ
  /-- The batch size to restore after it. -/
  savedBatch : UInt32

namespace Presentation

variable {τ φ H : Type} [Seconds τ] [Fraction φ] [Clock τ φ] [Host H τ]

/-- A frame at a tick that covers real time. -/
def real (tick : Tick) (fraction : φ) (delta : τ) : Presented τ φ := ⟨tick, fraction, delta, 1⟩

/-- Before the first frame. -/
def start : Presentation τ φ := ⟨Confirmed.invalid, real Tick.invalid 1 0, 1⟩

/-- The frame that leads from one confirmed tick to another. A tick that was shown in part is
simulated again, so it counts for the batch. -/
def moved (previous now : Confirmed φ) (step : τ) : Except Fault (Presented τ φ) := do
  let since ← now.tick.since previous.tick
  let ticks : τ :=
    Seconds.ofInt since + Clock.ofFraction now.fraction - Clock.ofFraction previous.fraction
  let again : UInt32 := if previous.isPartial then 1 else 0
  let batch ← addChecked (max since 0).toNat.toUInt32 again
  return ⟨now.tick, now.fraction, ticks * step, batch⟩

/-- The frame to present, and the confirmed tick that it measures up to. -/
def plan (previous : Confirmed φ) (w : World τ φ H) :
    Except Fault (Presented τ φ × Confirmed φ) := do
  if !w.inGame || !w.confirmed.isValid then
    return (real Tick.invalid 1 w.frame.delta, Confirmed.invalid)
  let now ← w.confirmed.snap w.config.threshold
  if previous.isValid then return (← moved previous now w.config.step, now)
  else return (real now.tick now.fraction w.frame.delta, now)

/-- Plans the frame; declines if it would not move forward. A declined frame is not measured from,
but the loss of the confirmed tick counts. -/
def wantsEntry :
    Presentation τ φ × World τ φ H → Except Fault (Bool × Presentation τ φ × World τ φ H)
  | (s, w) => do
    let (pending, now) ← plan s.previous w
    if 0 < pending.delta then return (true, { s with previous := now, pending }, w)
    else
      let previous := if pending.tick.isValid then s.previous else now
      return (false, { s with previous }, w.record (.skipped .presentation .nonPositiveDelta))

/-- Presents the planned frame. -/
def enter : Presentation τ φ × World τ φ H → Presentation τ φ × World τ φ H
  | (s, w) =>
    let p := s.pending
    let window : Window τ := ⟨w.frame.elapsed, p.delta⟩
    let invocation : Invocation τ φ :=
      { driver := .presentation, tick := p.tick, fraction := p.fraction, batch := p.batch,
        flags := w.time.flags, window }
    let time := { w.time with batch := p.batch }
    ({ s with savedBatch := w.time.batch }, { w with time }.invoke invocation)

/-- Ends the presented frame. -/
def leave : Presentation τ φ × World τ φ H → Except Fault (Presentation τ φ × World τ φ H)
  | (s, w) => do
    let w ← w.exitScope
    let time := { w.time with batch := s.savedBatch }
    return (s, { w with time })

/-- The bracket of the presentation driver. -/
def hooks : Bracket.Hooks (Presentation τ φ × World τ φ H) where
  wantsEntry := wantsEntry
  enter x := .ok (enter x)
  leave := leave

/-- Whether a frame is presented now. -/
def query (s : Bracket (Presentation τ φ)) (w : World τ φ H) :
    Except Fault (Bool × Bracket (Presentation τ φ) × World τ φ H) :=
  Bracket.queryIn .once hooks s w

/-- Presents a frame with `body` inside it. -/
def run (s : Bracket (Presentation τ φ)) (w : World τ φ H)
    (body : World τ φ H → Except Fault (World τ φ H)) :
    Except Fault (Bracket.Turn (Presentation τ φ) (World τ φ H)) :=
  Bracket.runIn .once hooks body s w

end Presentation

end Metronome
