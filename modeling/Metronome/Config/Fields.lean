import Metronome.Config

/-!
# Settings by name

The names that settings have in a document of any format, and how the settings are put together from
the values that a document gives to them. A setting that is left out has its standard value.
-/

namespace Metronome

namespace Pacing

/-- The name of a way to wait. -/
def name : Pacing → String
  | busyWait => "busy_wait"
  | sleep => "sleep"

/-- The ways to wait by their names. -/
def names : List (String × Pacing) := [busyWait, sleep].map fun p => (p.name, p)

end Pacing

namespace Config

/-- The names of the settings, in the order in which they are written. -/
def names : List String :=
  ["fixed_time_step", "max_steps_per_frame", "max_batch_length", "max_batch_size_repeat",
    "max_batch_size_first_time", "frame_rate_mode", "partial_tick_clamp_threshold_pct",
    "require_predicted_ghost", "input_history_ticks"]

/-- What the values of a format mean. -/
structure Readers (β : Type) where
  /-- A number of 64 bits. -/
  float? : β → Option Float
  /-- A number of 32 bits. -/
  float32? : β → Option Float32
  /-- A signed word. -/
  int32? : β → Option Int32
  /-- A word. -/
  uint32? : β → Option UInt32
  /-- A truth value. -/
  bool? : β → Option Bool
  /-- A way to wait. -/
  pacing? : β → Option Pacing

/-- The value of a setting, or the standard one where it is left out. -/
def setting {α β : Type} (read : β → Option α) (standard : α) : Option β → Option α
  | none => some standard
  | some value => read value

/-- The settings with given values, in the order of the names. -/
def ofFields? {β : Type} (r : Readers β) : List (Option β) → Option (Config Float Float32)
  | [step, maxSteps, maxBatch, maxRepeat, maxFirst, pacing, clampPercent, requireGhost,
      historyTicks] => do
    return {
      step := ← setting r.float? standard.step step
      maxSteps := ← setting r.int32? standard.maxSteps maxSteps
      maxBatch := ← setting r.int32? standard.maxBatch maxBatch
      maxRepeat := ← setting r.int32? standard.maxRepeat maxRepeat
      maxFirst := ← setting r.int32? standard.maxFirst maxFirst
      pacing := ← setting r.pacing? standard.pacing pacing
      clampPercent := ← setting r.float32? standard.clampPercent clampPercent
      requireGhost := ← setting r.bool? standard.requireGhost requireGhost
      historyTicks := ← setting r.uint32? standard.historyTicks historyTicks }
  | _ => none

end Config

end Metronome
