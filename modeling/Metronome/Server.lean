import Metronome.StepPlan
import Metronome.World
import Metronome.Bracket

/-!
# The server

Each frame the server takes its plan out of the elapsed time and runs the planned batches, one
invocation each. A countdown finds the lengths: the length drops by one when only the short batches
remain. Every invocation but the last of a frame is flagged as one that others follow.
-/

namespace Metronome

/-- The server's own state. -/
structure Server (τ : Type) where
  /-- The time carried from frame to frame. -/
  accumulator : Accumulator τ
  /-- The plan of the latest frame. -/
  plan : StepPlan
  /-- How many batches of it are left. -/
  remaining : UInt32
  /-- The length of the latest batch. -/
  length : UInt32
  /-- How many batches of it have begun. -/
  invocations : UInt32

namespace Server

variable {τ φ H : Type} [Seconds τ] [Fraction φ] [Host H τ]

/-- Before the first frame. -/
def start : Server τ := ⟨Accumulator.empty, StepPlan.idle, 0, 0, 0⟩

/-- Takes the frame's plan; declines if it is empty. -/
def wantsEntry : Server τ × World τ φ H → Except Fault (Bool × Server τ × World τ φ H)
  | (s, w) =>
    let (plan, accumulator) := s.accumulator.advance w.frame.delta w.config
    if plan.total = 0 then
      .ok (false, { s with accumulator, plan }, w.record (.skipped .server .noSteps))
    else
      .ok (true, ⟨accumulator, plan, plan.total, plan.length, 0⟩,
        w.record (.entered .server w.time.serverTick))

/-- The tick `length` after `tick`. Counting starts at zero, so the first batch lands on its
length. -/
def nextTick (tick : Tick) (length : UInt32) : Tick :=
  if tick.isValid then tick.shift length else Tick.ofIndex length

/-- The time record at the batch of `length` ticks that `remaining` batches follow. -/
def stepTime (time : TimeRecord τ φ) (length remaining : UInt32) (delta : τ) : TimeRecord τ φ :=
  { time with
    serverTick := nextTick time.serverTick length
    serverFraction := 1
    batch := length
    flags := time.flags.set StepFlags.catchUp (remaining > 0)
    elapsed := time.elapsed + delta }

/-- Opens the next invocation of the plan. -/
def step : Server τ × World τ φ H → Except Fault (Server τ × World τ φ H)
  | (s, w) => do
    let length ← if s.remaining = s.plan.short then subChecked s.length 1 else pure s.length
    let remaining ← subChecked s.remaining 1
    let invocations ← addChecked s.invocations 1
    let delta := w.config.step * Seconds.ofInt length.toNat
    let time := stepTime w.time length remaining delta
    let invocation : Invocation τ φ :=
      { driver := .server, tick := time.serverTick, fraction := 1, batch := length,
        flags := time.flags, window := ⟨time.elapsed, delta⟩ }
    return ({ s with remaining, length, invocations }, { w with time }.invoke invocation)

/-- The server's bracket. -/
def hooks : Bracket.Hooks (Server τ × World τ φ H) where
  wantsEntry := wantsEntry
  enter := step
  wantsMore x := .ok (x.1.remaining > 0, x)
  again := fun (s, w) => do step (s, ← w.exitScope)
  leave := fun (s, w) => do
    let w ← w.exitScope
    let time := { w.time with flags := w.time.flags.remove StepFlags.catchUp }
    return (s, { w with time }.record (.exited .server s.invocations))

/-- Whether the server runs (again) in this frame. -/
def query (s : Bracket (Server τ)) (w : World τ φ H) :
    Except Fault (Bool × Bracket (Server τ) × World τ φ H) :=
  Bracket.queryIn .repeatWhile hooks s w

/-- Runs all invocations of a frame, each with `body` inside it. -/
def run (s : Bracket (Server τ)) (w : World τ φ H)
    (body : World τ φ H → Except Fault (World τ φ H)) :
    Except Fault (Bracket.Turn (Server τ) (World τ φ H)) :=
  Bracket.runIn .repeatWhile hooks body s w

/-- Whether a frame of `delta` seconds would run at all. -/
def wouldTick (s : Server τ) (delta : τ) (config : Config τ φ) : Bool :=
  (s.accumulator.peek delta config).total > 0

/-- How long a host that sleeps between frames waits for the next tick. -/
def nextFrameDelay (s : Server Float) (config : Config Float φ) : Except Fault (Option Duration) :=
  match config.pacing with
  | .busyWait => .ok none
  | .sleep => do
    let residual := s.accumulator.residual
    let elapsed ← Duration.ofSeconds (if 0 < residual then residual else 0)
    return some ((← config.tickDuration).saturatingSub elapsed)

end Server

end Metronome
