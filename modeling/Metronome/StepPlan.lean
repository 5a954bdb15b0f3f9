import Metronome.Config

/-!
# Step plans

A frame owes a number of whole ticks. Its plan runs them one by one while they are few, and
otherwise merges them into as many batches as the frame may run, of equal length up to one tick, the
longer ones first. Ticks beyond the longest plan are dropped: the simulation falls behind, it does
not spiral.

`Accumulator` keeps the time that has not made up a whole tick yet.
-/

namespace Metronome

/-- The batches of a frame. -/
structure StepPlan where
  /-- The number of batches. -/
  total : UInt32
  /-- How many batches at the end are one tick shorter. -/
  short : UInt32
  /-- The ticks of a long batch. -/
  length : UInt32
deriving DecidableEq

namespace StepPlan

/-- A frame without batches. -/
def idle : StepPlan := ⟨0, 0, 1⟩

instance : Inhabited StepPlan := ⟨idle⟩

/-- The ticks of the plan. -/
def ticks (p : StepPlan) : Except Fault Nat :=
  if p.short.toNat ≤ p.total.toNat * p.length.toNat then
    .ok (p.total.toNat * p.length.toNat - p.short.toNat)
  else .error .subtractionOverflow

/-- The lengths of the batches in the order in which they run. -/
def lengths (p : StepPlan) : Except Fault (List UInt32) := do
  let long ← subChecked p.total p.short
  if p.short = 0 then return List.replicate long.toNat p.length
  else
    let less ← subChecked p.length 1
    return List.replicate long.toNat p.length ++ List.replicate p.short.toNat less

/-- The plan for a number of owed ticks. -/
def ofOwed (owed : UInt64) (steps batchLimit : UInt32) : StepPlan :=
  let steps := steps.toUInt64
  let batchLimit := batchLimit.toUInt64
  if owed ≤ steps then ⟨owed.toUInt32, 0, 1⟩
  else
    let length := (owed - 1) / steps + 1
    if length > batchLimit then ⟨steps.toUInt32, 0, batchLimit.toUInt32⟩
    else ⟨steps.toUInt32, (length * steps - owed).toUInt32, length.toUInt32⟩

variable {τ : Type} [Seconds τ]

/-- The plan of a frame of `delta` seconds after `residual` was left over, and what is left over
now. A delta that is no positive number counts as none. A step that is no positive number plans
nothing and keeps what was left. -/
def take (delta step : τ) (maxSteps maxBatch : Int32) (residual : τ) : StepPlan × τ :=
  if Seconds.isFinite step ∧ 0 < step then
    let total := if Seconds.isFinite delta ∧ 0 < delta then residual + delta else residual
    (ofOwed (Seconds.wholeUnits total step) (atLeastOne maxSteps) (atLeastOne maxBatch),
      Seconds.remainder total step)
  else (idle, residual)

/-- The plan that `take` would give. -/
def peek (delta step : τ) (maxSteps maxBatch : Int32) (residual : τ) : StepPlan :=
  (take delta step maxSteps maxBatch residual).1

end StepPlan

/-- The time carried from frame to frame. -/
structure Accumulator (τ : Type) where
  /-- Seconds that have not made up a whole tick. -/
  residual : τ

namespace Accumulator

variable {τ φ : Type} [Seconds τ]

/-- Nothing carried. -/
def empty : Accumulator τ := ⟨0⟩

/-- Adds a frame of `delta` seconds and takes out its plan. -/
def advance (a : Accumulator τ) (delta : τ) (config : Config τ φ) : StepPlan × Accumulator τ :=
  let (plan, residual) := StepPlan.take delta config.step config.maxSteps config.maxBatch a.residual
  (plan, ⟨residual⟩)

/-- The plan `advance` would give. -/
def peek (a : Accumulator τ) (delta : τ) (config : Config τ φ) : StepPlan :=
  (a.advance delta config).1

end Accumulator

end Metronome
