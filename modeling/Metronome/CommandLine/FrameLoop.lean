import Metronome.CommandLine.Report
import Metronome.Arena
import Metronome.Presentation
import Metronome.Prediction.Burst
import Metronome.Server

/-!
# Frame loops

The drivers run for a number of frames that follow each other at a fixed distance. For prediction
the confirmed tick moves along with the frames, and a snapshot of an earlier tick arrives whenever
it is a new one.

A fault ends a loop; the lines of the frames before it stay.
-/

namespace Metronome.CommandLine

/-- The lines that have been printed, and how it ended. -/
structure Printed (α : Type) where
  /-- The lines. -/
  lines : List String
  /-- How it ended. -/
  result : Except Fault α

namespace Printed

variable {α β : Type}

/-- Goes on after what has been printed, unless it ended in a fault. -/
def andThen (p : Printed α) (next : α → Printed β) : Printed β :=
  match p.result with
  | .error f => ⟨p.lines, .error f⟩
  | .ok a =>
    let q := next a
    ⟨p.lines ++ q.lines, q.result⟩

end Printed

/-- Runs `count` frames from a given one on. The lines so far have the newest frame first. -/
def frames {σ : Type} (step : Nat → σ → Printed σ) : Nat → Nat → List (List String) → σ → Printed σ
  | 0, _, past, s => ⟨past.reverse.flatten, .ok s⟩
  | count + 1, frame, past, s =>
    let p := step frame s
    match p.result with
    | .error f => ⟨(p.lines :: past).reverse.flatten, .error f⟩
    | .ok s => frames step count (frame + 1) (p.lines :: past) s

/-- The world of a loop: its host has arenas of 64 KiB. -/
abbrev LoopWorld := World Float Float32 (ArenaHost Float)

/-- The world before the first frame. -/
def startWorld (c : Config Float Float32) : LoopWorld := World.start c (ArenaHost.ofCapacity 65536)

/-! ## The server -/

/-- A running server. -/
structure ServerLoop where
  /-- The world. -/
  world : LoopWorld
  /-- The driver. -/
  driver : Bracket (Server Float)
  /-- The invocations so far. -/
  total : Nat

/-- The work of an invocation: it takes some bytes of the arena and writes the first of them. -/
def useScratch (w : LoopWorld) : LoopWorld :=
  match w.host.arenas.alloc 256 with
  | some (some (side, start, arenas)) =>
    let arenas := arenas.set side ((arenas.get side).write start 1 1)
    { w with host := { w.host with arenas } }
  | _ => w

namespace ServerLoop

/-- One frame: its events, and the loop after it. -/
def advance (s : ServerLoop) (frameTime : Float) :
    Except Fault (List (Event Float Float32) × ServerLoop) := do
  let turn ← Server.run s.driver (s.world.beginFrame frameTime) fun w => .ok (useScratch w)
  let (events, world) := (← turn.context.endFrame).drain
  return (events, ⟨world, turn.driver, s.total + turn.count⟩)

/-- How long the host would wait after a frame. -/
def delay (s : ServerLoop) (frame : Nat) : Printed ServerLoop :=
  match s.driver.state.nextFrameDelay s.world.config with
  | .error f => ⟨[], .error f⟩
  | .ok none => ⟨[], .ok s⟩
  | .ok (some d) => ⟨[delayLine frame d], .ok s⟩

/-- One frame. -/
def step (frameTime : Float) (frame : Nat) (s : ServerLoop) : Printed ServerLoop :=
  match s.advance frameTime with
  | .error f => ⟨[], .error f⟩
  | .ok (events, s) => (Printed.mk (frameLines frame events) (.ok s)).andThen fun s => s.delay frame

/-- The first line. -/
def opening (c : Config Float Float32) (count : UInt32) (frameTime : Float) : String :=
  "Server: " ++ wordText count ++ " frames of " ++ plainText frameTime ++ "s at " ++
    fixedText 1 (1 / c.step) ++ " Hz"

/-- The last line. -/
def closing (s : ServerLoop) : String :=
  "Done: " ++ String.ofList (Decimal.digitChars s.total) ++ " invocations, server tick " ++
    s.world.time.serverTick.text ++ ", residual " ++
    fixedText 4 s.driver.state.accumulator.residual ++ "s"

/-- A whole loop. -/
def run (c : Config Float Float32) (count : UInt32) (frameTime : Float) : Printed Unit :=
  let start : ServerLoop := ⟨startWorld c, Bracket.idle Server.start, 0⟩
  (Printed.mk [opening c count frameTime] (.ok start)).andThen fun s =>
    (frames (step frameTime) count.toNat 0 [] s).andThen fun s => ⟨[s.closing], .ok ()⟩

end ServerLoop

/-! ## Prediction -/

/-- A running client. -/
structure ClientLoop where
  /-- The world. -/
  world : LoopWorld
  /-- The predicted entities. -/
  ghosts : Ghosts
  /-- The prediction driver. -/
  prediction : Bracket (Prediction Float Float32)
  /-- The presentation driver. -/
  presentation : Bracket (Presentation Float Float32)
  /-- The time of the server in ticks. -/
  serverTime : Float

namespace ClientLoop

/-- The identifier of the only predicted entity. -/
def ghostId : EntityId := EntityId.handedOut 0

/-- Before the first frame, the server has run for a hundred ticks. -/
def start (c : Config Float Float32) : ClientLoop where
  world := startWorld c
  ghosts := Ghosts.empty.spawn ghostId
  prediction := Bracket.idle Prediction.initial
  presentation := Bracket.idle Presentation.start
  serverTime := 100

/-- The confirmed tick at a time of the server: the tick that is under way, and the progress toward
it. -/
def confirmedAt (serverTime : Float) : Confirmed Float32 :=
  let whole := nextWhole serverTime
  .inProgress (Tick.ofIndex whole.toUInt32) (narrow (serverTime - (whole - 1)))

/-- The snapshot of a tick arrives, if it is not the one the entity has. A refused one changes
nothing. -/
def receive (snapshot : Tick) (ghosts : Ghosts) (history : History) : Ghosts × History :=
  if (ghosts.get? ghostId).map Ghost.base == some snapshot then (ghosts, history)
  else
    match ghosts.applySnapshot ghostId snapshot history with
    | .ok received => received
    | .error _ => (ghosts, history)

/-- One frame: its events, and the loop after it. -/
def advance (s : ClientLoop) (latency : UInt32) (frameTime : Float) :
    Except Fault (List (Event Float Float32) × ClientLoop) := do
  let serverTime := s.serverTime + frameTime / s.world.config.step
  let confirmed := confirmedAt serverTime
  let snapshot ← confirmed.tick.rewind (max latency 1)
  let p := s.prediction.state
  let (ghosts, history) := receive snapshot s.ghosts p.history
  let prediction :=
    { s.prediction with state := { p with history := history.recordInput confirmed.tick } }
  let world := { s.world.beginFrame frameTime with confirmed }
  let burst ← Prediction.run prediction ⟨world, ghosts⟩ .ok
  let shown ← Presentation.run s.presentation burst.context.world .ok
  let (events, world) := (← shown.context.endFrame).drain
  return (events, ⟨world, burst.context.ghosts, burst.driver, shown.driver, serverTime⟩)

/-- One frame. -/
def step (latency : UInt32) (frameTime : Float) (frame : Nat) (s : ClientLoop) :
    Printed ClientLoop :=
  match s.advance latency frameTime with
  | .error f => ⟨[], .error f⟩
  | .ok (events, s) => ⟨frameLines frame events, .ok s⟩

/-- The first line. -/
def opening (count latency : UInt32) (frameTime : Float) : String :=
  "Predict: " ++ wordText count ++ " frames of " ++ plainText frameTime ++ "s, snapshots " ++
    wordText latency ++ " ticks behind"

/-- The last line. -/
def closing (s : ClientLoop) : String :=
  "Done: last full prediction tick " ++ s.prediction.state.lastFull.text

/-- A whole loop. -/
def run (c : Config Float Float32) (count latency : UInt32) (frameTime : Float) : Printed Unit :=
  (Printed.mk [opening count latency frameTime] (.ok (start c))).andThen fun s =>
    (frames (step latency frameTime) count.toNat 0 [] s).andThen fun s => ⟨[s.closing], .ok ()⟩

end ClientLoop

end Metronome.CommandLine
