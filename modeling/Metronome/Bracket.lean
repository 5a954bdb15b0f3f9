import Metronome.Fault

/-!
# Brackets

A driver is asked again and again in a frame whether it wants to run, until it declines. A bracket
turns the answers of its hooks into this dialogue: the first invocation is entered, every later one
is entered `again`, and the last one is left. In mode `once` there is one invocation; in mode
`repeatWhile` there are more while `wantsMore` says so.

The hooks act on any state `σ`. A body runs between a query that is answered `true` and the next
one.
-/

namespace Metronome

/-- The bookkeeping of a driver: whether an invocation is open, and the driver's own state. -/
structure Bracket (σ : Type) where
  /-- Whether an invocation is open. -/
  active : Bool
  /-- The state that the hooks act on. -/
  state : σ

namespace Bracket

/-- How often a bracket runs in a frame. -/
inductive Mode
  /-- Once at most. -/
  | once
  /-- While it wants more. -/
  | repeatWhile
deriving DecidableEq

/-- What a driver does at the turning points of its bracket. -/
structure Hooks (σ : Type) where
  /-- Whether to enter in this frame. -/
  wantsEntry : σ → Except Fault (Bool × σ)
  /-- Prepares the first invocation. -/
  enter : σ → Except Fault σ
  /-- Whether another invocation follows. -/
  wantsMore : σ → Except Fault (Bool × σ) := fun s => .ok (false, s)
  /-- Prepares an invocation after the first. -/
  again : σ → Except Fault σ := .ok
  /-- Tidies up after the last invocation. -/
  leave : σ → Except Fault σ

variable {σ κ : Type}

/-- A bracket with no open invocation. -/
def idle (state : σ) : Bracket σ := ⟨false, state⟩

/-- Whether an open bracket goes on. In mode `once` the hooks are not asked. -/
def goesOn (mode : Mode) (hooks : Hooks σ) (state : σ) : Except Fault (Bool × σ) :=
  match mode with
  | .once => .ok (false, state)
  | .repeatWhile => hooks.wantsMore state

/-- One query: whether the body is to run, and the bracket after it. -/
def query (mode : Mode) (hooks : Hooks σ) (b : Bracket σ) : Except Fault (Bool × Bracket σ) := do
  if b.active then
    let (more, state) ← goesOn mode hooks b.state
    if more then return (true, ⟨true, ← hooks.again state⟩)
    else return (false, ⟨false, ← hooks.leave state⟩)
  else
    let (wanted, state) ← hooks.wantsEntry b.state
    if wanted then return (true, ⟨true, ← hooks.enter state⟩)
    else return (false, ⟨false, state⟩)

/-- A finished run: the bracket after it, and the state that each body found. -/
structure Run (σ : Type) where
  /-- The bracket after the last query. -/
  bracket : Bracket σ
  /-- What the bodies found, first body first. -/
  found : List σ

/-- The number of bodies that ran. -/
def Run.count (r : Run σ) : Nat := r.found.length

/-- Queries until the bracket declines, at most `fuel` times, with the body after every query that
is answered `true`. Nothing if it has not declined by then. -/
def loop (mode : Mode) (hooks : Hooks σ) (body : σ → Except Fault σ) :
    Nat → Bracket σ → Option (Except Fault (Run σ))
  | 0, _ => none
  | fuel + 1, b =>
    match query mode hooks b with
    | .error fault => some (.error fault)
    | .ok (false, b) => some (.ok ⟨b, []⟩)
    | .ok (true, b) =>
      match body b.state with
      | .error fault => some (.error fault)
      | .ok state =>
        (loop mode hooks body fuel ⟨b.active, state⟩).map fun r =>
          r.map fun run => { run with found := b.state :: run.found }

/-- Queries until the bracket declines. Bodies are counted in a word, so a run that has not declined
when the word is full is a fault. -/
def run (mode : Mode) (hooks : Hooks σ) (body : σ → Except Fault σ) (b : Bracket σ) :
    Except Fault (Run σ) :=
  (loop mode hooks body UInt32.size b).getD (.error .additionOverflow)

/-! ## A driver and what it acts on

A driver's own state lives in its bracket; what it acts on is lent to it for one query or one
run. -/

/-- The bracket with a context beside its state. -/
def beside (b : Bracket σ) (context : κ) : Bracket (σ × κ) := ⟨b.active, (b.state, context)⟩

/-- The bracket without the context beside its state. -/
def alone (b : Bracket (σ × κ)) : Bracket σ := ⟨b.active, b.state.1⟩

/-- The context beside the state. -/
def context (b : Bracket (σ × κ)) : κ := b.state.2

/-- A finished frame of a driver. -/
structure Turn (σ κ : Type) where
  /-- The driver after it. -/
  driver : Bracket σ
  /-- What it acted on. -/
  context : κ
  /-- What the bodies found, first body first. -/
  found : List κ

/-- The number of invocations. -/
def Turn.count (t : Turn σ κ) : Nat := t.found.length

/-- One query of a driver. -/
def queryIn (mode : Mode) (hooks : Hooks (σ × κ)) (b : Bracket σ) (context : κ) :
    Except Fault (Bool × Bracket σ × κ) := do
  let (runs, b) ← query mode hooks (b.beside context)
  return (runs, b.alone, b.context)

/-- A whole frame of a driver. -/
def runIn (mode : Mode) (hooks : Hooks (σ × κ)) (body : κ → Except Fault κ) (b : Bracket σ)
    (context : κ) : Except Fault (Turn σ κ) := do
  let r ← run mode hooks (fun (state, context) => do return (state, ← body context))
    (b.beside context)
  return ⟨r.bracket.alone, r.bracket.context, r.found.map Prod.snd⟩

@[simp] theorem alone_beside (b : Bracket σ) (c : κ) : (b.beside c).alone = b := rfl

@[simp] theorem context_beside (b : Bracket σ) (c : κ) : (b.beside c).context = c := rfl

theorem query_of_inactive {mode : Mode} {hooks : Hooks σ} {b : Bracket σ} (h : b.active = false) :
    query mode hooks b = (do
      let (wanted, state) ← hooks.wantsEntry b.state
      if wanted then return (true, ⟨true, ← hooks.enter state⟩)
      else return (false, ⟨false, state⟩)) := by
  simp [query, h]

theorem query_of_active {mode : Mode} {hooks : Hooks σ} {b : Bracket σ} (h : b.active = true) :
    query mode hooks b = (do
      let (more, state) ← goesOn mode hooks b.state
      if more then return (true, ⟨true, ← hooks.again state⟩)
      else return (false, ⟨false, ← hooks.leave state⟩)) := by
  simp [query, h]

end Bracket

end Metronome
