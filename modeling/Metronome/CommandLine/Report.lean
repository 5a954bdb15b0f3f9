import Metronome.Config.Fields
import Metronome.Duration
import Metronome.World

/-!
# Reports

The lines that the program prints: the settings, and what the drivers did in a frame.
-/

namespace Metronome.CommandLine

/-- The name and version of the program. -/
def programLabel : String := "netstep-cli v0.1.0"

/-- The name and version of the drivers. -/
def kernelLabel : String := "netstep-kernel v0.1.0"

/-- A way to wait in a report. -/
def pacingLabel : Pacing → String
  | .busyWait => "BusyWait"
  | .sleep => "Sleep"

/-- A truth value in a report. -/
def truthLabel (b : Bool) : String := if b then "true" else "false"

/-- The text of a word. -/
def wordText (n : UInt32) : String := String.ofList (Decimal.digitChars n.toNat)

/-- The settings. -/
def infoLines (c : Config Float Float32) : List String :=
  [programLabel,
    "kernel: " ++ kernelLabel,
    "fixed_time_step: " ++ plainText c.step ++ "s",
    "server: max_steps=" ++ wordText c.steps ++ " max_batch=" ++ wordText c.batchLimit ++
      " frame_rate_mode=" ++ pacingLabel c.pacing,
    "prediction: batch_repeat=" ++ wordText c.repeatBudget ++ " batch_first_time=" ++
      wordText c.firstBudget ++ " history=" ++ wordText c.history ++ " require_ghost=" ++
      truthLabel c.requireGhost,
    "presentation: clamp_threshold=" ++ fixedText32 3 c.threshold]

/-- The lead of a line about a frame: its number in at least three places. -/
def frameLead (frame : Nat) : String :=
  let digits := Decimal.digitChars frame
  "  [" ++ String.ofList (List.replicate (3 - digits.length) ' ' ++ digits) ++ "] "

/-- An invocation. -/
def invocationText (i : Invocation Float Float32) : String :=
  i.driver.text ++ " tick=" ++ i.tick.text ++ " fraction=" ++ fixedText32 2 i.fraction ++
    " batch=" ++ wordText i.batch ++ " flags=" ++ i.flags.text ++ " window=(" ++
    fixedText 4 i.window.elapsed ++ ", " ++ fixedText 4 i.window.delta ++ ")"

/-- What is said about an event; nothing about the ends of a burst. -/
def eventText? : Event Float Float32 → Option String
  | .invoked i => some (invocationText i)
  | .skipped driver reason => some (driver.text ++ " skipped: " ++ reason.text)
  | .entered _ _ => none
  | .exited _ _ => none

/-- What the drivers did in a frame. -/
def frameLines (frame : Nat) (events : List (Event Float Float32)) : List String :=
  (events.filterMap eventText?).map (frameLead frame ++ ·)

/-- How long the host would wait after a frame. -/
def delayLine (frame : Nat) (delay : Duration) : String :=
  frameLead frame ++ "next tick due in " ++ delay.text

end Metronome.CommandLine
