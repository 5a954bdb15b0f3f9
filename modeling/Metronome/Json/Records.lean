import Metronome.Json.Decoding
import Metronome.Ghosts
import Metronome.StepPlan
import Metronome.World

/-!
# Records in JSON

How the library's own values are written and read. A record is an object with its fields in a fixed
order; it may also be read from an array of them. An alternative is its name, or an object from its
name to what comes with it.

For each type, `toJson` writes a value and `ofJson?` reads one.
-/

namespace Metronome

open Json

/-- An alternative with something beside its name. -/
def tagged (name : String) (content : Json) : Json := record [(name, content)]

/-! ## Ticks and time -/

namespace Tick

/-- A tick is its word. -/
def toJson (t : Tick) : Json := ofInt t.raw.toNat

/-- Every word is taken as a tick. -/
def ofJson? (j : Json) : Option Tick := (uint32? j).map Tick.mk

/-- The tick of a JSON text. -/
def ofJsonText? (text : String) : Option Tick := Json.ofText? text >>= ofJson?

end Tick

namespace Confirmed

/-- A record of tick and fraction. -/
def toJson (c : Confirmed Float32) : Json :=
  record [("tick", c.tick.toJson), ("fraction", ofFloat32 c.fraction)]

/-- A record of tick and fraction. -/
def ofJson? (j : Json) : Option (Confirmed Float32) := do
  match ← fields? ["tick", "fraction"] j with
  | [tick, fraction] => return ⟨← Tick.ofJson? (← tick), ← float32? (← fraction)⟩
  | _ => none

end Confirmed

namespace StepFlags

/-- A set of flags is its word. -/
def toJson (f : StepFlags) : Json := ofInt f.bits.toNat

/-- Every word is a set of flags. -/
def ofJson? (j : Json) : Option StepFlags := (uint8? j).map StepFlags.mk

end StepFlags

namespace Frame

/-- A record of elapsed time and delta. -/
def toJson (f : Frame Float) : Json :=
  record [("elapsed", ofFloat f.elapsed), ("delta", ofFloat f.delta)]

/-- A record of elapsed time and delta. -/
def ofJson? (j : Json) : Option (Frame Float) := do
  match ← fields? ["elapsed", "delta"] j with
  | [elapsed, delta] => return ⟨← float? (← elapsed), ← float? (← delta)⟩
  | _ => none

end Frame

namespace Window

/-- A record of the window's end and its delta. -/
def toJson (w : Window Float) : Json :=
  record [("elapsed", ofFloat w.elapsed), ("delta", ofFloat w.delta)]

/-- A record of the window's end and its delta. -/
def ofJson? (j : Json) : Option (Window Float) := do
  match ← fields? ["elapsed", "delta"] j with
  | [elapsed, delta] => return ⟨← float? (← elapsed), ← float? (← delta)⟩
  | _ => none

end Window

namespace TimeRecord

/-- A record of all fields. -/
def toJson (t : TimeRecord Float Float32) : Json :=
  record
    [("server_tick", t.serverTick.toJson), ("server_tick_fraction", ofFloat32 t.serverFraction),
      ("interpolation_tick", t.shownTick.toJson),
      ("interpolation_tick_fraction", ofFloat32 t.shownFraction),
      ("flags", t.flags.toJson), ("simulation_step_batch_size", ofInt t.batch.toNat),
      ("predicted_tick_index", ofInt t.predictedIndex.toNat),
      ("num_predicted_ticks_expected", ofInt t.expectedTicks.toNat),
      ("elapsed_network_time", ofFloat t.elapsed),
      ("effective_input_latency_ticks", ofInt t.inputLatency.toNat)]

/-- A record of all fields. -/
def ofJson? (j : Json) : Option (TimeRecord Float Float32) := do
  let names := ["server_tick", "server_tick_fraction", "interpolation_tick",
    "interpolation_tick_fraction", "flags", "simulation_step_batch_size", "predicted_tick_index",
    "num_predicted_ticks_expected", "elapsed_network_time", "effective_input_latency_ticks"]
  match ← fields? names j with
  | [serverTick, serverFraction, shownTick, shownFraction, flags, batch, index, expected, elapsed,
      latency] =>
    return {
      serverTick := ← Tick.ofJson? (← serverTick)
      serverFraction := ← float32? (← serverFraction)
      shownTick := ← Tick.ofJson? (← shownTick)
      shownFraction := ← float32? (← shownFraction)
      flags := ← StepFlags.ofJson? (← flags)
      batch := ← uint32? (← batch)
      predictedIndex := ← uint32? (← index)
      expectedTicks := ← uint32? (← expected)
      elapsed := ← float? (← elapsed)
      inputLatency := ← uint32? (← latency) }
  | _ => none

end TimeRecord

/-! ## Plans and events -/

namespace StepPlan

/-- A record of the counts. -/
def toJson (p : StepPlan) : Json :=
  record [("total_steps", ofInt p.total.toNat), ("short_step_count", ofInt p.short.toNat),
    ("length_long_steps", ofInt p.length.toNat)]

/-- A record of the counts. -/
def ofJson? (j : Json) : Option StepPlan := do
  match ← fields? ["total_steps", "short_step_count", "length_long_steps"] j with
  | [total, short, length] =>
    return ⟨← uint32? (← total), ← uint32? (← short), ← uint32? (← length)⟩
  | _ => none

end StepPlan

namespace Driver

/-- The names of the drivers. -/
def names : List (String × Driver) := [server, prediction, presentation].map fun d => (d.text, d)

/-- The name. -/
def toJson (d : Driver) : Json := ofString d.text

/-- The name. -/
def ofJson? (j : Json) : Option Driver := choice? names j

end Driver

namespace SkipReason

/-- The names of the reasons. -/
def names : List (String × SkipReason) :=
  [noSteps, noConfirmedTick, noPredictedGhost, nothingToReplay, nonPositiveDelta].map fun r =>
    (r.text, r)

/-- The name. -/
def toJson (r : SkipReason) : Json := ofString r.text

/-- The name. -/
def ofJson? (j : Json) : Option SkipReason := choice? names j

end SkipReason

namespace Invocation

/-- A record of all fields. -/
def toJson (i : Invocation Float Float32) : Json :=
  record
    [("driver", i.driver.toJson), ("tick", i.tick.toJson), ("fraction", ofFloat32 i.fraction),
      ("batch", ofInt i.batch.toNat), ("flags", i.flags.toJson), ("window", i.window.toJson)]

/-- A record of all fields. -/
def ofJson? (j : Json) : Option (Invocation Float Float32) := do
  match ← fields? ["driver", "tick", "fraction", "batch", "flags", "window"] j with
  | [driver, tick, fraction, batch, flags, window] =>
    return {
      driver := ← Driver.ofJson? (← driver)
      tick := ← Tick.ofJson? (← tick)
      fraction := ← float32? (← fraction)
      batch := ← uint32? (← batch)
      flags := ← StepFlags.ofJson? (← flags)
      window := ← Window.ofJson? (← window) }
  | _ => none

end Invocation

namespace Event

/-- The name of the event with a record of what it says. -/
def toJson : Event Float Float32 → Json
  | entered driver tick =>
    tagged "BurstEntered" (record [("driver", driver.toJson), ("tick", tick.toJson)])
  | invoked invocation => tagged "Invoked" invocation.toJson
  | exited driver invocations =>
    tagged "BurstExited"
      (record [("driver", driver.toJson), ("invocations", ofInt invocations.toNat)])
  | skipped driver reason =>
    tagged "Skipped" (record [("driver", driver.toJson), ("reason", reason.toJson)])

/-- A record of a driver and one other field. -/
def withDriver? {α : Type} (name : String) (read : Json → Option α) (j : Json) :
    Option (Driver × α) := do
  match ← fields? ["driver", name] j with
  | [driver, other] => return (← Driver.ofJson? (← driver), ← read (← other))
  | _ => none

/-- The name of the event with a record of what it says. -/
def ofJson? (j : Json) : Option (Event Float Float32) := do
  let (name, content) ← alternative? j
  let content ← content
  match name with
  | "BurstEntered" => (withDriver? "tick" Tick.ofJson? content).map fun (d, t) => entered d t
  | "Invoked" => (Invocation.ofJson? content).map invoked
  | "BurstExited" => (withDriver? "invocations" uint32? content).map fun (d, n) => exited d n
  | "Skipped" => (withDriver? "reason" SkipReason.ofJson? content).map fun (d, r) => skipped d r
  | _ => none

end Event

/-! ## Predicted entities -/

namespace EntityId

/-- The written form. -/
def toJson (e : EntityId) : Json := ofString e.text

/-- Any accepted form. -/
def ofJson? (j : Json) : Option EntityId := string? j >>= ofText?

end EntityId

namespace Ghost

/-- A record of both fields. -/
def toJson (g : Ghost) : Json :=
  record [("base_tick", g.base.toJson), ("simulate", .bool g.simulate)]

/-- A record of both fields. -/
def ofJson? (j : Json) : Option Ghost := do
  match ← fields? ["base_tick", "simulate"] j with
  | [base, simulate] => return ⟨← Tick.ofJson? (← base), ← bool? (← simulate)⟩
  | _ => none

end Ghost

namespace TickSet

/-- A record of the list of members. -/
def toJson (s : TickSet) : Json := record [("ticks", .array (s.ticks.map Tick.toJson))]

/-- A record of a list of ticks, taken as they are. -/
def ofJson? (j : Json) : Option TickSet := do
  match ← fields? ["ticks"] j with
  | [ticks] => return ofList (← list? Tick.ofJson? (← ticks))
  | _ => none

/-- The set of a JSON text. -/
def ofJsonText? (text : String) : Option TickSet := Json.ofText? text >>= ofJson?

end TickSet

end Metronome
