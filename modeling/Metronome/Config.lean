import Metronome.Duration
import Metronome.Clock
import Metronome.Text.Quoted

/-!
# Settings

The settings of a world: how long a tick is, and the limits of the drivers. Limits below one are
accepted and count as one (`steps`, `batchLimit`, `repeatBudget`, `firstBudget`). `validate` refuses
a broken tick length or clamp band and an empty input history.
-/

namespace Metronome

/-- How the host waits between frames. -/
inductive Pacing
  /-- It spins until the next tick is due. -/
  | busyWait
  /-- It sleeps until the next tick is due. -/
  | sleep
deriving DecidableEq

/-- The settings of a world. -/
structure Config (τ φ : Type) where
  /-- Seconds per tick. -/
  step : τ
  /-- Most server invocations in a frame. -/
  maxSteps : Int32
  /-- Most ticks of one server invocation. -/
  maxBatch : Int32
  /-- Most ticks of a prediction invocation among ticks that were predicted before. -/
  maxRepeat : Int32
  /-- Most ticks of a prediction invocation among new ticks. -/
  maxFirst : Int32
  /-- How the host waits. -/
  pacing : Pacing
  /-- The part of a tick around each boundary that counts as the boundary, in percent. -/
  clampPercent : φ
  /-- Whether prediction waits for a predicted entity. -/
  requireGhost : Bool
  /-- How many ticks of input are kept. -/
  historyTicks : UInt32

/-- A limit; anything below one counts as one. -/
def atLeastOne (limit : Int32) : UInt32 := (max limit.toInt 1).toNat.toUInt32

namespace Config

variable {τ φ : Type}

/-- Most server invocations in a frame. -/
def steps (c : Config τ φ) : UInt32 := atLeastOne c.maxSteps

/-- Most ticks of one server invocation. -/
def batchLimit (c : Config τ φ) : UInt32 := atLeastOne c.maxBatch

/-- Most ticks of an invocation among ticks that were predicted before. -/
def repeatBudget (c : Config τ φ) : UInt32 := atLeastOne c.maxRepeat

/-- Most ticks of an invocation among new ticks. -/
def firstBudget (c : Config τ φ) : UInt32 := atLeastOne c.maxFirst

/-- The ticks of input that are kept; at least one. -/
def history (c : Config τ φ) : UInt32 := max c.historyTicks 1

/-- The clamp band as a fraction of a tick, at most half a tick. -/
def threshold [Fraction φ] (c : Config τ φ) : φ :=
  let band := Fraction.ofPercent c.clampPercent
  if band < 0 then 0 else if Fraction.half < band then Fraction.half else band

/-- Why settings are refused. -/
inductive Error
  /-- The file cannot be read as text. -/
  | io
  /-- The text is no settings document in YAML. -/
  | yaml
  /-- The text is no settings document in JSON. -/
  | json
  /-- The name of the file has no known ending. -/
  | unsupportedFormat (ending : String)
  /-- A tick has no usable length. -/
  | invalidStep (step : Float)
  /-- The clamp band is no number. -/
  | invalidClamp (percent : Float32)
  /-- No input would be kept. -/
  | emptyHistory

/-- The report of a refusal. -/
def Error.message : Error → String
  | io => "IO error"
  | yaml => "YAML error"
  | json => "JSON error"
  | unsupportedFormat ending => "unsupported config format: " ++ Text.quoted ending
  | invalidStep step => "fixed_time_step must be finite and positive, got " ++ plainText step
  | invalidClamp percent =>
    "partial_tick_clamp_threshold_pct must be finite, got " ++ plainText32 percent
  | emptyHistory => "input_history_ticks must be at least 1"

/-- Sixty ticks per second, four batches of four ticks per frame, and single ticks in prediction. -/
def standard : Config Float Float32 where
  step := 1.0 / 60.0
  maxSteps := 4
  maxBatch := 4
  maxRepeat := 1
  maxFirst := 1
  pacing := .busyWait
  clampPercent := 5.0
  requireGhost := false
  historyTicks := 64

/-- The standard settings with another number of ticks per second. -/
def ofRate (rate : UInt32) : Config Float Float32 :=
  { standard with step := 1.0 / (max rate 1).toFloat }

/-- Refuses settings that no run can use. The first of several faults is reported. -/
def validate (c : Config Float Float32) : Except Error Unit :=
  if !(c.step.isFinite && decide (0 < c.step)) then .error (.invalidStep c.step)
  else if !c.clampPercent.isFinite then .error (.invalidClamp c.clampPercent)
  else if c.historyTicks = 0 then .error .emptyHistory
  else .ok ()

/-- The settings, if a run can use them. -/
def validated (c : Config Float Float32) : Except Error (Config Float Float32) := do
  c.validate
  return c

/-- How long a tick is. -/
def tickDuration (c : Config Float φ) : Except Fault Duration := Duration.ofSeconds c.step

end Config

end Metronome
