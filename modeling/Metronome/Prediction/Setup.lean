import Metronome.Bracket
import Metronome.Ghosts
import Metronome.World

/-!
# Setting up a prediction burst

A burst replays past ticks to bring predicted entities from their authoritative state to the
confirmed tick. Its setup collects the points where the replay may have to start or stop:

* the ticks whose state was applied, the target and the last tick that was predicted in full,
* the tick before every new input between the oldest of these and the target.

Points newer than the target, or more than the input history behind the confirmed tick, are dropped.
The replay runs from the oldest point that is left to the target, the last whole tick up to the
confirmed one.
-/

namespace Metronome

/-- The state of the prediction driver. -/
structure Prediction (τ φ : Type) where
  /-- The ticks that ask for a replay in the next burst. -/
  history : History
  /-- The newest tick that was predicted in full. -/
  lastFull : Tick
  /-- Where the next batch starts. -/
  start : Tick
  /-- The replay points ahead of it, oldest first. -/
  ahead : List Tick
  /-- The confirmed tick that the burst leads to. -/
  confirmed : Confirmed φ
  /-- The last whole tick of the burst. -/
  target : Tick
  /-- Seconds at the target. -/
  baseline : τ
  /-- Most ticks of the next batch. -/
  budget : UInt32
  /-- Whether the trailing part of a tick has run. -/
  partialDone : Bool
  /-- The batch size to restore after the burst. -/
  savedBatch : UInt32
  /-- How many invocations have begun. -/
  invocations : UInt32
  /-- How many of them were flagged as the last one. -/
  finals : UInt32

/-- What an invocation of a prediction burst can touch. -/
structure Scene (τ φ H : Type) where
  /-- The world. -/
  world : World τ φ H
  /-- The predicted entities. -/
  ghosts : Ghosts

namespace Prediction

variable {τ φ H : Type} [Seconds τ] [Fraction φ] [Clock τ φ] [Host H τ]

/-- Before the first frame. -/
def initial : Prediction τ φ where
  history := History.empty
  lastFull := Tick.invalid
  start := Tick.invalid
  ahead := []
  confirmed := Confirmed.invalid
  target := Tick.invalid
  baseline := 0
  budget := 1
  partialDone := false
  savedBatch := 1
  invocations := 0
  finals := 0

/-! ## Replay points -/

/-- How far behind the confirmed tick a replay may reach, for a history of so many ticks. -/
def horizon (history : UInt32) : Int := min (history.toNat : Int) 2147483647

/-- The last whole tick up to a confirmed one. -/
def targetOf (confirmed : Confirmed φ) : Except Fault Tick :=
  if confirmed.isPartial then confirmed.tick.prev else .ok confirmed.tick

/-- Seconds at the target, for a confirmed tick at `elapsed`. -/
def baselineOf (confirmed : Confirmed φ) (step elapsed : τ) : τ :=
  if confirmed.isPartial then elapsed - step * Clock.ofFraction confirmed.fraction else elapsed

/-- The applied ticks with the target, and with the last full tick if the target is ahead of it.
Without a last full tick the target takes its place. -/
def withTarget (applied : TickSet) (lastFull target : Tick) : Except Fault (TickSet × Tick) := do
  let applied := applied.insert target
  if !lastFull.isValid then return (applied, target)
  else if ← target.isNewerThan lastFull then return (applied.insert lastFull, lastFull)
  else return (applied, lastFull)

/-- The first tick whose input matters: the one after the oldest point, or after the edge of the
history if the point lies past it. -/
def firstInput (confirmed oldest : Tick) (history : UInt32) : Except Fault Tick := do
  let edge ←
    if (← confirmed.since oldest) > horizon history then confirmed.rewind history else pure oldest
  edge.next

/-- How many ticks a walk from `first` passes until it is past `last`. -/
def walkLength (first last : Tick) : Nat :=
  ((3 - ((first.raw.toNat : Int) - last.raw.toNat).bmod 4294967296) / 2).toNat

/-- Whether the walk of so many ticks from `first` passes `t`. -/
def onWalk (first : Tick) (length : Nat) (t : Tick) : Bool :=
  (t.raw - first.raw) % 2 == 0 && decide ((t.raw - first.raw).toNat / 2 < length)

/-- The replay points of new inputs between `first` and the target: the tick before each. A walk can
only meet the invalid tick if it starts on an even word. -/
def inputPoints (inputs : TickSet) (first target : Tick) : Except Fault (List Tick) :=
  let length := walkLength first target
  if !target.isValid || onWalk first (length + 1) Tick.invalid then .error .comparingInvalid
  else .ok ((inputs.ticks.filter (onWalk first length)).map (·.shiftBack 1))

/-- Whether a replay may use a point: it is not ahead of the target and not past the horizon. -/
def reachable (confirmed target : Tick) (horizon : Int) (t : Tick) : Except Fault Bool := do
  if ← t.isNewerThan target then return false
  else if t = target then return true
  else return decide ((← confirmed.since t) ≤ horizon)

/-- All replay points, oldest first; none if nothing was applied. -/
def replayPoints (confirmed target : Tick) (history : UInt32) (applied inputs : TickSet) :
    Except Fault (Option (List Tick)) := do
  match ← applied.oldest confirmed with
  | none => return none
  | some oldest =>
    let first ← firstInput confirmed oldest history
    let all := applied.insertAll (← inputPoints inputs first target)
    let points ←
      (← all.oldestFirst confirmed).filterM (reachable confirmed target (horizon history))
    return some points

/-! ## The decision -/

/-- Declines the frame. -/
def skip (reason : SkipReason) (s : Prediction τ φ) (c : Scene τ φ H) :
    Bool × Prediction τ φ × Scene τ φ H :=
  (false, s, { c with world := c.world.record (.skipped .prediction reason) })

/-- How many ticks a burst replays, with the part of a tick at its end. -/
def expectedTicks (target oldest : Tick) (isPartial : Bool) : Except Fault UInt32 := do
  addChecked (UInt32.ofInt (← target.since oldest)) (if isPartial then 1 else 0)

/-- Begins a burst at the oldest of its points. -/
def begin (s : Prediction τ φ) (c : Scene τ φ H) (target : Tick) (fresh : Bool) (oldest : Tick)
    (ahead : List Tick) : Except Fault (Bool × Prediction τ φ × Scene τ φ H) := do
  let confirmed := c.world.confirmed
  let config := c.world.config
  let expectedTicks ← expectedTicks target oldest confirmed.isPartial
  let time := { c.world.time with expectedTicks }
  let world := { c.world with time }.record (.entered .prediction confirmed.tick)
  let s := { s with
    start := oldest
    ahead
    confirmed
    target
    baseline := baselineOf confirmed config.step c.world.frame.elapsed
    budget := if fresh then config.firstBudget else config.repeatBudget
    partialDone := false
    invocations := 0
    finals := 0 }
  return (true, s, { world, ghosts := c.ghosts.disableAll })

/-- Decides the frame for a confirmed tick: collects the replay points, forgets what they were
collected from, and begins a burst if there is something to replay. -/
def plan (s : Prediction τ φ) (c : Scene τ φ H) :
    Except Fault (Bool × Prediction τ φ × Scene τ φ H) := do
  let confirmed := c.world.confirmed
  let history := c.world.config.history
  let target ← targetOf confirmed
  let (applied, lastFull) ← withTarget s.history.applied s.lastFull target
  match ← replayPoints confirmed.tick target history applied s.history.inputs with
  | none => return skip .nothingToReplay { s with history := History.empty, lastFull } c
  | some points =>
    let stale := decide ((← confirmed.tick.since lastFull) > horizon history)
    let fresh := !s.lastFull.isValid || stale
    let s := { s with history := History.empty, lastFull := if stale then target else lastFull }
    match points with
    | [] =>
      if confirmed.isPartial then throw (.outOfBounds 0 0) else return skip .nothingToReplay s c
    | oldest :: ahead =>
      if ahead.isEmpty && !confirmed.isPartial then return skip .nothingToReplay s c
      else begin s c target fresh oldest ahead

/-- Decides the frame. Without predicted entities nothing that was recorded matters. -/
def wantsEntry : Prediction τ φ × Scene τ φ H → Except Fault (Bool × Prediction τ φ × Scene τ φ H)
  | (s, c) =>
    if !c.world.confirmed.isValid then .ok (skip .noConfirmedTick s c)
    else if !c.ghosts.isEmpty then plan s c
    else
      let s := { s with history := History.empty }
      if c.world.config.requireGhost then
        .ok (skip .noPredictedGhost { s with lastFull := Tick.invalid } c)
      else plan s c

end Prediction

end Metronome
