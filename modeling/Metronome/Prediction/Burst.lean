import Metronome.Prediction.Setup

/-!
# Running a prediction burst

Each invocation advances from where the last one ended to the next replay point, in one batch. A
batch is cut where it would exceed the budget, and at the last tick that was predicted in full: up
to there ticks are repeated, from there on they are predicted for the first time, each with its own
budget. A confirmed tick that is under way ends the burst with one invocation for the part that is
done.
-/

namespace Metronome.Prediction

variable {τ φ H : Type} [Seconds τ] [Fraction φ] [Clock τ φ] [Host H τ]

/-! ## Batches -/

/-- A batch of whole ticks. -/
structure Batch where
  /-- The tick it ends on. -/
  stop : Tick
  /-- Its ticks. -/
  length : UInt32
  /-- Whether it stops short of the replay point. -/
  split : Bool
  /-- The budget it was cut to. -/
  budget : UInt32

/-- Whether a batch from `start` to `point` would run past the last full tick. -/
def crosses (start point lastFull : Tick) : Except Fault Bool := do
  if ← lastFull.isNewerThan start then point.isNewerThan lastFull else return false

/-- The batch from `start` toward `point`. -/
def nextBatch (start point lastFull : Tick) (budget firstBudget : UInt32) : Except Fault Batch := do
  let atLast := start == lastFull
  let budget := if atLast then firstBudget else budget
  let crossing ← if atLast then pure false else crosses start point lastFull
  let stop := if crossing then lastFull else point
  let length := (max (← stop.since start) 1).toNat.toUInt32
  if length > budget then return ⟨← start.advance budget, budget, true, budget⟩
  else return ⟨stop, length, crossing, budget⟩

/-- Whether an invocation that ends on `stop` covers ticks that were never predicted in full. -/
def isFirstTime (lastFull stop : Tick) : Except Fault Bool :=
  if lastFull.isValid then stop.isNewerThan lastFull else .ok true

/-- The flags of a whole invocation that ends on `stop`. -/
def batchFlags (flags : StepFlags) (firstTime : Bool) (stop confirmed target : Tick) : StepFlags :=
  ((flags.set StepFlags.firstTime firstTime).set StepFlags.final (stop == confirmed)).set
    StepFlags.finalFull (stop == target)

/-- The flags of the invocation for a part of a tick. -/
def partialFlags (flags : StepFlags) : StepFlags :=
  (flags.insert StepFlags.final).remove (StepFlags.finalFull ||| StepFlags.firstTime)

/-! ## Invocations -/

/-- Where an invocation ends and what it covers. -/
structure Leg (τ φ : Type) where
  /-- The tick it ends on. -/
  tick : Tick
  /-- The progress toward it. -/
  fraction : φ
  /-- Its ticks. -/
  batch : UInt32
  /-- Its flags, apart from the one for the first invocation. -/
  flags : StepFlags
  /-- Its time. -/
  window : Window τ

/-- The next whole invocation: the driver and the entities are moved to it. -/
def batchLeg (s : Prediction τ φ) (c : Scene τ φ H) (point : Tick) (rest : List Tick) :
    Except Fault (Prediction τ φ × Ghosts × Leg τ φ) := do
  let config := c.world.config
  let b ← nextBatch s.start point s.lastFull s.budget config.firstBudget
  let firstTime ← isFirstTime s.lastFull b.stop
  let ghosts ← c.ghosts.enableFrom s.start
  let age ← s.target.since b.stop
  let leg : Leg τ φ :=
    { tick := b.stop
      fraction := 1
      batch := b.length
      flags := batchFlags c.world.time.flags firstTime b.stop s.confirmed.tick s.target
      window :=
        ⟨s.baseline - config.step * Seconds.ofInt age, config.step * Seconds.ofInt b.length.toNat⟩ }
  let s := { s with
    start := b.stop
    ahead := if b.split then point :: rest else rest
    lastFull := if firstTime then b.stop else s.lastFull
    budget := b.budget }
  return (s, ghosts, leg)

/-- The invocation for the part of a tick at the end. -/
def partialLeg (s : Prediction τ φ) (c : Scene τ φ H) : Prediction τ φ × Ghosts × Leg τ φ :=
  let fraction := s.confirmed.fraction
  let leg : Leg τ φ :=
    { tick := s.confirmed.tick
      fraction
      batch := 1
      flags := partialFlags c.world.time.flags
      window := ⟨c.world.frame.elapsed, c.world.config.step * Clock.ofFraction fraction⟩ }
  ({ s with partialDone := true }, c.ghosts.enableAll, leg)

/-- The next invocation. -/
def nextLeg (s : Prediction τ φ) (c : Scene τ φ H) :
    Except Fault (Prediction τ φ × Ghosts × Leg τ φ) :=
  match s.ahead with
  | point :: rest => batchLeg s c point rest
  | [] => .ok (partialLeg s c)

/-- Opens the next invocation. -/
def step : Prediction τ φ × Scene τ φ H → Except Fault (Prediction τ φ × Scene τ φ H)
  | (s, c) => do
    let isFirst := s.invocations == 0
    let invocations ← addChecked s.invocations 1
    let (s, ghosts, leg) ← nextLeg s c
    let flags := leg.flags.set StepFlags.first isFirst
    let predictedIndex ← addChecked c.world.time.predictedIndex 1
    let finals ← if flags.contains StepFlags.final then addChecked s.finals 1 else pure s.finals
    let time := { c.world.time with
      serverTick := leg.tick
      serverFraction := leg.fraction
      flags
      batch := leg.batch
      predictedIndex
      elapsed := leg.window.elapsed }
    let invocation : Invocation τ φ :=
      { driver := .prediction, tick := leg.tick, fraction := leg.fraction, batch := leg.batch,
        flags, window := leg.window }
    return ({ s with invocations, finals },
      { world := { c.world with time }.invoke invocation, ghosts })

/-! ## The bracket -/

/-- Enters the burst. -/
def enter : Prediction τ φ × Scene τ φ H → Except Fault (Prediction τ φ × Scene τ φ H)
  | (s, c) =>
    let time := { c.world.time with
      predictedIndex := 0
      flags := c.world.time.flags.insert StepFlags.inLoop }
    step ({ s with savedBatch := c.world.time.batch }, { c with world := { c.world with time } })

/-- Whether the burst goes on. -/
def wantsMore (s : Prediction τ φ) : Bool :=
  !s.ahead.isEmpty || (s.confirmed.isPartial && !s.partialDone)

/-- Enters the next invocation. -/
def again : Prediction τ φ × Scene τ φ H → Except Fault (Prediction τ φ × Scene τ φ H)
  | (s, c) => do step (s, { c with world := ← c.world.exitScope })

/-- A burst has to end on the confirmed tick. -/
def checkReached (time : TimeRecord τ φ) (confirmed : Confirmed φ) : Except Fault Unit :=
  if time.serverTick == confirmed.tick && time.serverFraction == confirmed.fraction then .ok ()
  else .error (.burstMissed (Confirmed.text ⟨time.serverTick, time.serverFraction⟩) confirmed.text)

/-- A burst has to flag one invocation as its last. -/
def checkFinals (finals : UInt32) : Except Fault Unit :=
  if finals == 1 then .ok () else .error (.finalCount finals.toNat)

/-- The time record after a burst. -/
def restored (time : TimeRecord τ φ) (confirmed : Confirmed φ) (savedBatch : UInt32) :
    TimeRecord τ φ :=
  { time with
    serverTick := confirmed.tick
    serverFraction := confirmed.fraction
    batch := savedBatch }.clearBurst

/-- Leaves the burst. -/
def leave : Prediction τ φ × Scene τ φ H → Except Fault (Prediction τ φ × Scene τ φ H)
  | (s, c) => do
    let world ← c.world.exitScope
    checkReached world.time s.confirmed
    checkFinals s.finals
    let time := restored world.time s.confirmed s.savedBatch
    let world := { world with time }.record (.exited .prediction s.invocations)
    return ({ s with ahead := [] }, { world, ghosts := c.ghosts.enableAll })

/-- The bracket of the prediction driver. -/
def hooks : Bracket.Hooks (Prediction τ φ × Scene τ φ H) where
  wantsEntry := wantsEntry
  enter := enter
  wantsMore x := .ok (wantsMore x.1, x)
  again := again
  leave := leave

/-- Whether predicted entities run (again) in this frame. -/
def query (s : Bracket (Prediction τ φ)) (c : Scene τ φ H) :
    Except Fault (Bool × Bracket (Prediction τ φ) × Scene τ φ H) :=
  Bracket.queryIn .repeatWhile hooks s c

/-- Runs the burst of a frame, each invocation with `body` inside it. -/
def run (s : Bracket (Prediction τ φ)) (c : Scene τ φ H)
    (body : Scene τ φ H → Except Fault (Scene τ φ H)) :
    Except Fault (Bracket.Turn (Prediction τ φ) (Scene τ φ H)) :=
  Bracket.runIn .repeatWhile hooks body s c

end Metronome.Prediction
