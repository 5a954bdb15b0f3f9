import Metronome.Proofs.Visit

/-!
# Sessions

A session is a world with its predicted entities and its three drivers. It is acted on from outside:
frames begin and end, settings change, ticks are confirmed, state and input arrive, and each driver
runs its frame with some body. A run is a row of calls (`Session.Along`), and a call is the visit of
a driver, or it touches neither the log nor the scopes (`Session.visit_of_act`,
`Session.rest_of_act`). A burst in a run can be told from its replay points (`Session.run_burst`).
-/

namespace Metronome

variable {τ φ H : Type}

/-- A world with its predicted entities and its drivers. -/
structure Session (τ φ H : Type) where
  world : World τ φ H
  ghosts : Ghosts
  server : Bracket (Server τ)
  prediction : Bracket (Prediction τ φ)
  presentation : Bracket (Presentation τ φ)

/-- What is done to a session. -/
inductive Session.Op (τ φ H : Type)
  /-- A frame begins so many seconds after the one before. -/
  | beginFrame (delta : τ)
  /-- The frame ends. -/
  | endFrame
  /-- The settings change. -/
  | configure (config : Config τ φ)
  /-- The world joins or leaves a game. -/
  | setInGame (inGame : Bool)
  /-- A tick is confirmed. -/
  | confirm (confirmed : Confirmed φ)
  /-- A predicted entity appears. -/
  | spawn (id : EntityId)
  /-- A predicted entity disappears. -/
  | despawn (id : EntityId)
  /-- Authoritative state of a tick arrives for an entity. -/
  | applySnapshot (id : EntityId) (tick : Tick)
  /-- Authoritative state of a tick was applied. -/
  | recordApplied (tick : Tick)
  /-- Input of a tick arrives. -/
  | recordInput (tick : Tick)
  /-- The server runs its frame. -/
  | serve (body : World τ φ H → Except Fault (World τ φ H))
  /-- Predicted entities run their frame. -/
  | predict (body : Scene τ φ H → Except Fault (Scene τ φ H))
  /-- The frame is presented. -/
  | present (body : World τ φ H → Except Fault (World τ φ H))

/-- What a session replies. -/
inductive Session.Reply (τ φ H : Type)
  /-- Nothing. -/
  | done
  /-- The state that arrived is refused. -/
  | refused (reason : Ghosts.Error)
  /-- A driver of the world ran, and its bodies found these worlds. -/
  | ran (found : List (World τ φ H))
  /-- A burst ran, and its bodies found these scenes. -/
  | predicted (found : List (Scene τ φ H))

/-- The number of invocations that a reply returns. -/
def Session.Reply.count : Reply τ φ H → Nat
  | ran found => found.length
  | predicted found => found.length
  | _ => 0

/-- The worlds that the bodies of a reply found. -/
def Session.Reply.worlds : Reply τ φ H → List (World τ φ H)
  | ran found => found
  | predicted found => found.map Scene.world
  | _ => []

theorem Session.Reply.count_eq (r : Reply τ φ H) : r.count = r.worlds.length := by
  cases r with
  | predicted found => exact (List.length_map _).symm
  | _ => rfl

/-- The driver that an operation runs. -/
def Session.Op.driver? : Op τ φ H → Option Driver
  | serve _ => some .server
  | predict _ => some .prediction
  | present _ => some .presentation
  | _ => none

/-- What the body of an operation does to the world that it finds. -/
def Session.Op.Runs (op : Op τ φ H) (w w' : World τ φ H) : Prop :=
  match op with
  | serve body => body w = .ok w'
  | predict body => Prediction.BodyRuns body w w'
  | present body => body w = .ok w'
  | _ => False

namespace Session

/-- The session with another history of ticks that ask for a replay. -/
def withHistory (s : Session τ φ H) (history : History) : Session τ φ H :=
  { s with prediction := { s.prediction with
      state := { s.prediction.state with history } } }

variable [Seconds τ] [Fraction φ] [Clock τ φ] [Host H τ]

/-- Before the first frame, at a tick. -/
def start (config : Config τ φ) (host : H) (tick : Tick) : Session τ φ H where
  world := { World.start config host with
    time := { (World.start config host).time with serverTick := tick } }
  ghosts := Ghosts.empty
  server := .idle Server.start
  prediction := .idle Prediction.initial
  presentation := .idle Presentation.start

/-- Does one thing to a session. -/
def act (s : Session τ φ H) : Op τ φ H → Except Fault (Reply τ φ H × Session τ φ H)
  | .beginFrame delta => .ok (.done, { s with world := s.world.beginFrame delta })
  | .endFrame => do return (.done, { s with world := ← s.world.endFrame })
  | .configure config => .ok (.done, { s with world := { s.world with config } })
  | .setInGame inGame => .ok (.done, { s with world := { s.world with inGame } })
  | .confirm confirmed => .ok (.done, { s with world := { s.world with confirmed } })
  | .spawn id => .ok (.done, { s with ghosts := s.ghosts.spawn id })
  | .despawn id => .ok (.done, { s with ghosts := s.ghosts.despawn id })
  | .applySnapshot id tick =>
    match s.ghosts.applySnapshot id tick s.prediction.state.history with
    | .error reason => .ok (.refused reason, s)
    | .ok (ghosts, history) => .ok (.done, { s.withHistory history with ghosts })
  | .recordApplied tick =>
    .ok (.done, s.withHistory (s.prediction.state.history.recordApplied tick))
  | .recordInput tick => .ok (.done, s.withHistory (s.prediction.state.history.recordInput tick))
  | .serve body => do
    let turn ← Server.run s.server s.world body
    return (.ran turn.found, { s with server := turn.driver, world := turn.context })
  | .predict body => do
    let turn ← Prediction.run s.prediction ⟨s.world, s.ghosts⟩ body
    return (.predicted turn.found, { s with
      prediction := turn.driver, world := turn.context.world, ghosts := turn.context.ghosts })
  | .present body => do
    let turn ← Presentation.run s.presentation s.world body
    return (.ran turn.found, { s with presentation := turn.driver, world := turn.context })

/-- Does one thing after another; tells all replies, and the session in the end. -/
def run (s : Session τ φ H) : List (Op τ φ H) → Except Fault (List (Reply τ φ H) × Session τ φ H)
  | [] => .ok ([], s)
  | op :: ops => do
    let (reply, s) ← s.act op
    let (replies, s) ← s.run ops
    return (reply :: replies, s)

/-! ## One call -/

/-- No driver has an open invocation. -/
structure Idle (s : Session τ φ H) : Prop where
  server : s.server.active = false
  prediction : s.prediction.active = false
  presentation : s.presentation.active = false

variable {s s' : Session τ φ H} {op : Op τ φ H} {reply : Reply τ φ H}

/-- A call of a driver is its visit, and leaves the session idle. -/
theorem visit_of_act (hs : s.Idle) (h : s.act op = .ok (reply, s')) {d : Driver}
    (hd : op.driver? = some d) :
    World.Visit d op.Runs s.world reply.worlds s'.world ∧ s'.Idle := by
  obtain ⟨world, ghosts, ⟨a, server⟩, ⟨a', prediction⟩, ⟨a'', presentation⟩⟩ := s
  obtain ⟨rfl, rfl, rfl⟩ : a = false ∧ a' = false ∧ a'' = false :=
    ⟨hs.server, hs.prediction, hs.presentation⟩
  cases op with
  | serve body =>
    cases hd
    obtain ⟨turn, hrun, h⟩ := bind_eq_ok_iff.mp h
    cases h
    obtain ⟨hidle, hvisit⟩ := Server.visit_of_run hrun
    exact ⟨hvisit, hidle, rfl, rfl⟩
  | predict body =>
    cases hd
    obtain ⟨turn, hrun, h⟩ := bind_eq_ok_iff.mp h
    cases h
    obtain ⟨hidle, hvisit⟩ := Prediction.visit_of_run hrun
    exact ⟨hvisit, rfl, hidle, rfl⟩
  | present body =>
    cases hd
    obtain ⟨turn, hrun, h⟩ := bind_eq_ok_iff.mp h
    cases h
    obtain ⟨hidle, hvisit⟩ := Presentation.visit_of_run hrun
    exact ⟨hvisit, rfl, rfl, hidle⟩
  | _ => cases hd

/-- Another call runs no body and touches neither the log nor the scopes. -/
theorem rest_of_act (hs : s.Idle) (h : s.act op = .ok (reply, s')) (hd : op.driver? = none) :
    reply.worlds = [] ∧ s'.world.past = s.world.past ∧ s'.world.host = s.world.host ∧
      s'.world.scopes = s.world.scopes ∧ s'.Idle := by
  cases op with
  | serve | predict | present => cases hd
  | endFrame =>
    obtain ⟨w, hw, h⟩ := bind_eq_ok_iff.mp h
    cases h
    unfold World.endFrame at hw
    split at hw <;> cases hw
    exact ⟨rfl, rfl, rfl, rfl, hs⟩
  | applySnapshot id tick =>
    unfold act at h
    dsimp only at h
    split at h
    · cases h
      exact ⟨rfl, rfl, rfl, rfl, hs⟩
    · cases h
      exact ⟨rfl, rfl, rfl, rfl, hs.server, hs.prediction, hs.presentation⟩
  | _ =>
    cases h
    exact ⟨rfl, rfl, rfl, rfl, hs.server, hs.prediction, hs.presentation⟩

theorem Idle.of_act (hs : s.Idle) (h : s.act op = .ok (reply, s')) : s'.Idle := by
  cases hd : op.driver? with
  | none => exact (rest_of_act hs h hd).2.2.2.2
  | some d => exact (visit_of_act hs h hd).2

/-- What an operation asks for so that it returns: a frame ends with all scopes closed, a driver
runs with a constructed confirmed tick and a body that returns. The ticks of the prediction are on
the circle, and its applied ticks and last full tick lie less than a quarter of it from the
confirmed tick. -/
def Admits (s : Session τ φ H) : Op τ φ H → Prop
  | .endFrame => s.world.depth = 0
  | .serve body => World.Steady body
  | .predict body => s.prediction.state.Sound ∧ s.world.confirmed.Built ∧
      s.prediction.state.Close ⟨s.world, s.ghosts⟩ ∧ Quiet body
  | .present body => s.world.confirmed.Built ∧ World.Steady body
  | _ => True

theorem exists_act [LawfulFraction φ] (hs : s.Idle) (h : s.Admits op) :
    ∃ reply s', s.act op = .ok (reply, s') := by
  obtain ⟨world, ghosts, ⟨a, server⟩, ⟨a', prediction⟩, ⟨a'', presentation⟩⟩ := s
  obtain ⟨rfl, rfl, rfl⟩ : a = false ∧ a' = false ∧ a'' = false :=
    ⟨hs.server, hs.prediction, hs.presentation⟩
  cases op with
  | endFrame =>
    have hbalanced : world.scopes.balanced = .ok () := if_pos h
    exact ⟨.done, _, by simp only [act, World.endFrame, hbalanced, ok_bind]; rfl⟩
  | applySnapshot id tick =>
    unfold act
    dsimp only
    split <;> exact ⟨_, _, rfl⟩
  | serve body =>
    obtain ⟨turn, hrun⟩ := Server.exists_run h server world
    exact ⟨_, _, bind_eq_ok_iff.mpr ⟨turn, hrun, rfl⟩⟩
  | predict body =>
    obtain ⟨hsound, hbuilt, hclose, hquiet⟩ := h
    obtain ⟨turn, hrun⟩ := Prediction.exists_turn hquiet hsound hbuilt hclose
    exact ⟨_, _, bind_eq_ok_iff.mpr ⟨turn, hrun, rfl⟩⟩
  | present body =>
    have hcircle : world.Shows → world.confirmed.tick.OnCircle := fun hs => h.1.onCircle hs.2
    obtain ⟨turn, hrun⟩ := Presentation.exists_run presentation hcircle h.2
    exact ⟨_, _, bind_eq_ok_iff.mpr ⟨turn, hrun, rfl⟩⟩
  | _ => exact ⟨_, _, rfl⟩

/-! ## A run past a burst -/

/-- The session that a run leads to, or the one before a run that faults. -/
def reached (s : Session τ φ H) (ops : List (Op τ φ H)) : Session τ φ H :=
  match s.run ops with
  | .ok (_, s) => s
  | .error _ => s

/-- What the burst of a session acts on. -/
def scene (s : Session τ φ H) : Scene τ φ H := ⟨s.world, s.ghosts⟩

theorem run_append (s : Session τ φ H) (ops rest : List (Op τ φ H)) :
    s.run (ops ++ rest) = do
      let (replies, s) ← s.run ops
      let (others, s) ← s.run rest
      return (replies ++ others, s) := by
  induction ops generalizing s with
  | nil => cases h : s.run rest <;> simp [run, h]
  | cons op ops ih =>
    simp only [List.cons_append, run, ih]
    cases s.act op with
    | error f => rfl
    | ok x =>
      cases h : x.2.run ops with
      | error f => simp [h]
      | ok y => cases h' : y.2.run rest <;> simp [h, h']

/-- A run past a burst whose points are known need not look for them. -/
theorem run_burst {ops : List (Op τ φ H)} {oldest : Tick} {ahead : List Tick}
    (hentry : (s.reached ops).prediction.state.GoesBy (s.reached ops).scene oldest ahead)
    (body : Scene τ φ H → Except Fault (Scene τ φ H)) (rest : List (Op τ φ H)) :
    s.run (ops ++ .predict body :: rest) = do
      let (replies, s) ← s.run ops
      let turn ← Bracket.runIn .repeatWhile (s.prediction.state.guided s.scene oldest ahead) body
        s.prediction s.scene
      let (others, s) ← { s with
        prediction := turn.driver
        world := turn.context.world
        ghosts := turn.context.ghosts }.run rest
      return (replies ++ .predicted turn.found :: others, s) := by
  cases hrun : s.run ops with
  | error f => simp [run_append, hrun]
  | ok x =>
    obtain ⟨replies, s₁⟩ := x
    have hreached : s.reached ops = s₁ := by rw [reached, hrun]
    have hburst : Prediction.run s₁.prediction ⟨s₁.world, s₁.ghosts⟩ body = _ :=
      (hreached ▸ hentry).run_eq_guided
    simp only [run_append, hrun, ok_bind, run, act, hburst, bind_assoc, pure_bind]

/-! ## Calls in a row -/

/-- A call, with the session before and after it. -/
structure Call (τ φ H : Type) where
  before : Session τ φ H
  op : Op τ φ H
  reply : Reply τ φ H
  after : Session τ φ H

/-- Calls one after another, from one session to another. -/
inductive Along : Session τ φ H → List (Call τ φ H) → Session τ φ H → Prop
  /-- No call. -/
  | nil {s : Session τ φ H} : Along s [] s
  /-- A call, and those after it. -/
  | cons {c : Call τ φ H} {cs : List (Call τ φ H)} {s' : Session τ φ H}
      (acts : c.before.act c.op = .ok (c.reply, c.after)) (rest : Along c.after cs s') :
      Along c.before (c :: cs) s'

/-- A run is a row of calls. -/
theorem along_of_run {ops : List (Op τ φ H)} {replies : List (Reply τ φ H)}
    (h : s.run ops = .ok (replies, s')) :
    ∃ calls, Along s calls s' ∧ calls.map Call.op = ops ∧ calls.map Call.reply = replies := by
  induction ops generalizing s replies with
  | nil =>
    cases h
    exact ⟨[], .nil, rfl, rfl⟩
  | cons op ops ih =>
    obtain ⟨⟨reply, s₁⟩, hact, h⟩ := bind_eq_ok_iff.mp h
    obtain ⟨⟨replies, s₂⟩, hrun, h⟩ := bind_eq_ok_iff.mp h
    cases h
    obtain ⟨calls, halong, rfl, rfl⟩ := ih hrun
    exact ⟨⟨s, op, reply, s₁⟩ :: calls, .cons (c := ⟨s, op, reply, s₁⟩) hact halong, rfl, rfl⟩

/-- A run that returns so many invocations is a row of calls that return them. -/
theorem along_of_counts {ops : List (Op τ φ H)} {counts : List Nat}
    (h : (s.run ops).toOption.map (fun x => x.1.map Reply.count) = some counts) :
    ∃ calls s', Along s calls s' ∧ calls.map Call.op = ops ∧
      calls.map (fun c => c.reply.count) = counts := by
  obtain ⟨⟨replies, s'⟩, hrun, hcounts⟩ := Option.map_eq_some_iff.mp h
  have hok : s.run ops = .ok (replies, s') := by
    cases hr : s.run ops with
    | error f =>
      rw [hr] at hrun
      cases hrun
    | ok x =>
      rw [hr] at hrun
      cases hrun
      rfl
  obtain ⟨calls, halong, hops, rfl⟩ := along_of_run hok
  rw [List.map_map] at hcounts
  exact ⟨calls, s', halong, hops, hcounts⟩

namespace Along

variable {calls : List (Call τ φ H)}

/-- A call more. -/
theorem snoc (h : Along s calls s') {s'' : Session τ φ H} (hact : s'.act op = .ok (reply, s'')) :
    Along s (calls ++ [⟨s', op, reply, s''⟩]) s'' := by
  induction h with
  | nil => exact .cons (c := ⟨_, op, reply, s''⟩) hact .nil
  | cons acts _ ih => exact .cons acts (ih hact)

/-- Every call is made to an idle session. -/
theorem idle (h : Along s calls s') (hs : s.Idle) :
    (∀ c ∈ calls, c.before.Idle ∧ c.before.act c.op = .ok (c.reply, c.after)) ∧ s'.Idle := by
  induction h with
  | nil => exact ⟨fun _ hc => absurd hc List.not_mem_nil, hs⟩
  | cons acts _ ih =>
    obtain ⟨hall, hend⟩ := ih (hs.of_act acts)
    exact ⟨List.forall_mem_cons.mpr ⟨⟨hs, acts⟩, hall⟩, hend⟩

/-- What every call leaves as it was is the same after all of them. -/
theorem same {α : Type} (view : Session τ φ H → α) (h : Along s calls s')
    (hcalls : ∀ c ∈ calls, view c.after = view c.before) : view s' = view s := by
  induction h with
  | nil => rfl
  | cons _ _ ih =>
    obtain ⟨hfirst, hrest⟩ := List.forall_mem_cons.mp hcalls
    exact (ih hrest).trans hfirst

end Along

/-- A frame in which every driver runs: the server is due, and the tick that is confirmed is under
way and ahead of the state that was applied. -/
def everyDriver (H : Type) [Host H Rat] : List (Op Rat Rat H) :=
  [.beginFrame (1 / 10), .serve .ok, .confirm (.inProgress (Tick.ofIndex 9) (1 / 2)),
    .spawn (EntityId.handedOut 0), .recordApplied (Tick.ofIndex 5), .predict .ok, .present .ok]

/-- Its bodies do nothing. -/
theorem eq_of_runs_everyDriver {H : Type} [Host H Rat] {op : Op Rat Rat H}
    (hop : op ∈ everyDriver H) {w w' : World Rat Rat H} (hruns : op.Runs w w') : w' = w := by
  simp only [everyDriver, List.mem_cons, List.not_mem_nil, or_false] at hop
  rcases hop with rfl | rfl | rfl | rfl | rfl | rfl | rfl
  case inr.inl | inr.inr.inr.inr.inr.inr =>
    cases hruns
    rfl
  case inr.inr.inr.inr.inr.inl =>
    obtain ⟨ghosts, ghosts', hruns⟩ := hruns
    cases hruns
    rfl
  all_goals exact hruns.elim

end Session

end Metronome
