import Metronome.Config
import Metronome.TimeRecord
import Metronome.Scope

/-!
# Worlds

A world is what the drivers of one simulation share: settings, the time record, the frame, the
confirmed tick, the host and its scopes, and a log of everything the drivers decided. The log only
grows until it is drained.
-/

namespace Metronome

/-- Who acts. -/
inductive Driver
  /-- The authoritative simulation. -/
  | server
  /-- The replay of predicted entities. -/
  | prediction
  /-- The once-per-frame systems. -/
  | presentation
deriving DecidableEq

/-- The name of a driver. -/
def Driver.text : Driver → String
  | server => "Server"
  | prediction => "Prediction"
  | presentation => "Presentation"

/-- Why a driver does nothing in a frame. -/
inductive SkipReason
  /-- No whole tick is due. -/
  | noSteps
  /-- No tick has been confirmed. -/
  | noConfirmedTick
  /-- There is no predicted entity, and prediction needs one. -/
  | noPredictedGhost
  /-- No tick needs a replay. -/
  | nothingToReplay
  /-- Presented time would not move forward. -/
  | nonPositiveDelta
deriving DecidableEq

/-- The name of a reason. -/
def SkipReason.text : SkipReason → String
  | noSteps => "NoSteps"
  | noConfirmedTick => "NoConfirmedTick"
  | noPredictedGhost => "NoPredictedGhost"
  | nothingToReplay => "NothingToReplay"
  | nonPositiveDelta => "NonPositiveDelta"

/-- One invocation. -/
structure Invocation (τ φ : Type) where
  /-- Who runs. -/
  driver : Driver
  /-- The tick it ends on. -/
  tick : Tick
  /-- The progress toward it. -/
  fraction : φ
  /-- How many ticks it covers. -/
  batch : UInt32
  /-- The flags it runs under. -/
  flags : StepFlags
  /-- The time it runs at. -/
  window : Window τ

/-- One decision of a driver. -/
inductive Event (τ φ : Type)
  /-- A burst begins at a tick. -/
  | entered (driver : Driver) (tick : Tick)
  /-- An invocation begins. -/
  | invoked (invocation : Invocation τ φ)
  /-- A burst ends after a number of invocations. -/
  | exited (driver : Driver) (invocations : UInt32)
  /-- The driver does nothing in this frame. -/
  | skipped (driver : Driver) (reason : SkipReason)

/-- What the drivers of a simulation share. -/
structure World (τ φ H : Type) where
  /-- The settings. -/
  config : Config τ φ
  /-- The time record. -/
  time : TimeRecord τ φ
  /-- The real time. -/
  frame : Frame τ
  /-- The newest confirmed tick. -/
  confirmed : Confirmed φ
  /-- Whether the world takes part in a game. -/
  inGame : Bool
  /-- The host. -/
  host : H
  /-- The open scopes. -/
  scopes : ScopeStack
  /-- The log, newest event first. -/
  past : List (Event τ φ)

namespace World

variable {τ φ H : Type} [Seconds τ] [Fraction φ] [Host H τ]

/-- A world before its first frame. -/
def start (config : Config τ φ) (host : H) : World τ φ H where
  config
  time := TimeRecord.start
  frame := Frame.start
  confirmed := Confirmed.invalid
  inGame := true
  host
  scopes := ScopeStack.empty
  past := []

/-- The log, oldest event first. -/
def events (w : World τ φ H) : List (Event τ φ) := w.past.reverse

/-- Adds an event to the log. -/
def record (w : World τ φ H) (event : Event τ φ) : World τ φ H := { w with past := event :: w.past }

/-- The log, and the world with an empty one. -/
def drain (w : World τ φ H) : List (Event τ φ) × World τ φ H := (w.events, { w with past := [] })

/-- The invocations of the log, oldest first. -/
def invocations (w : World τ φ H) : List (Invocation τ φ) :=
  w.events.filterMap fun
    | .invoked i => some i
    | _ => none

/-- Starts the frame that follows after `delta` seconds. -/
def beginFrame (w : World τ φ H) (delta : τ) : World τ φ H :=
  { w with frame := w.frame.advanced delta }

/-- Ends the frame; all scopes have to be closed. -/
def endFrame (w : World τ φ H) : Except Fault (World τ φ H) :=
  match w.scopes.balanced with
  | .ok () => .ok w
  | .error .underflow => .error .scopeUnderflow
  | .error (.leaked depth) => .error (.scopesOpen depth)

/-- How many scopes are open. -/
def depth (w : World τ φ H) : Nat := w.scopes.depth

/-- Opens a scope. -/
def enterScope (w : World τ φ H) (window : Window τ) : World τ φ H :=
  let (scopes, host) := w.scopes.enter w.host window
  { w with scopes, host }

/-- Closes the innermost scope. -/
def exitScope (w : World τ φ H) : Except Fault (World τ φ H) :=
  match w.scopes.exit w.host with
  | .ok (scopes, host) => .ok { w with scopes, host }
  | .error .underflow => .error .scopeUnderflow
  | .error (.leaked depth) => .error (.scopesOpen depth)

/-- Opens the scope of an invocation and logs it. -/
def invoke (w : World τ φ H) (invocation : Invocation τ φ) : World τ φ H :=
  (w.enterScope invocation.window).record (.invoked invocation)

omit [Seconds τ] [Fraction φ] [Host H τ] in
@[simp] theorem events_record (w : World τ φ H) (e : Event τ φ) :
    (w.record e).events = w.events ++ [e] := by
  simp [record, events]

end World

end Metronome
