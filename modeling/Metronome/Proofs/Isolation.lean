import Metronome.Proofs.Rotation.Tick
import Metronome.Proofs.Session

/-!
# Bursts are isolated

A burst can be driven query by query, and between its queries the client goes on: frames begin,
ticks are confirmed, entities come and go, state and input arrive. `Session.attend` is such a burst.

What it was set up with it has copied, and of what it still reads only the settings and the time
record matter to the ticks, fractions, batches and flags of its invocations. A disturbed burst
(`Prediction.Disturbed`) takes the same steps as the burst that nothing came between, up to the
times of its windows, or fails with the same fault (`Session.attend_disturbed`). The history was
emptied when the burst was set up, and no later step touches it, so what arrives meanwhile is kept
for the next burst (`Session.gained_of_attend`).
-/

namespace Metronome

open Tick

variable {τ φ H : Type}

/-! ## Bursts among other calls -/

/-- The calls that may come between the queries of a burst: those that neither run a driver nor end
the frame, and keep the settings. -/
def Session.Op.Outside : Op τ φ H → Prop
  | beginFrame _ | setInGame _ | confirm _ | spawn _ | despawn _ | applySnapshot _ _
  | recordApplied _ | recordInput _ => True
  | endFrame | configure _ | serve _ | predict _ | present _ => False

namespace Session

section Bursts

variable [Seconds τ] [Fraction φ] [Clock τ φ] [Host H τ]

/-- One query of the prediction. -/
def query (s : Session τ φ H) : Except Fault (Bool × Session τ φ H) := do
  let (runs, prediction, scene) ← Prediction.query s.prediction ⟨s.world, s.ghosts⟩
  return (runs, { s with prediction, world := scene.world, ghosts := scene.ghosts })

/-- Goes on with a burst: before each query come the calls of a row. Tells the calls that were made
with their replies, and the session after the last query. A row that is left over when the burst has
ended is not made. -/
def attend (s : Session τ φ H) :
    List (List (Op τ φ H)) → Except Fault (List (Op τ φ H × Reply τ φ H) × Session τ φ H)
  | [] => .ok ([], s)
  | row :: rows => do
    let (replies, s) ← s.run row
    let (more, s) ← s.query
    let (later, s) ← (if more then s.attend rows else .ok ([], s))
    return (row.zip replies ++ later, s)

end Bursts

/-- The tick of a call that applied authoritative state, or told that some was applied. -/
def applied? : Op τ φ H × Reply τ φ H → Option Tick
  | (.recordApplied tick, _) | (.applySnapshot _ tick, .done) => some tick
  | _ => none

/-- The tick of a call that brought input. -/
def input? : Op τ φ H × Reply τ φ H → Option Tick
  | (.recordInput tick, _) => some tick
  | _ => none

end Session

/-! ## What is seen of a burst -/

/-- An event without the times of its window. -/
def Event.untimed : Event τ φ → Event Unit φ
  | .entered driver tick => .entered driver tick
  | .invoked i => .invoked
    { driver := i.driver, tick := i.tick, fraction := i.fraction, batch := i.batch,
      flags := i.flags, window := ⟨(), ()⟩ }
  | .exited driver invocations => .exited driver invocations
  | .skipped driver reason => .skipped driver reason

/-- What is seen of a burst. -/
structure Sight (φ : Type) where
  /-- Whether it is open. -/
  isOpen : Bool
  /-- The log, oldest event first. -/
  events : List (Event Unit φ)
  /-- The tick the simulation is at. -/
  serverTick : Tick
  /-- The progress toward it. -/
  serverFraction : φ

/-- What is seen of the burst of a session. -/
def Session.sight (s : Session τ φ H) : Sight φ where
  isOpen := s.prediction.active
  events := s.world.events.map Event.untimed
  serverTick := s.world.time.serverTick
  serverFraction := s.world.time.serverFraction

/-! ## Disturbances -/

/-- A fault that is rotated by no step is the same. -/
theorem Fault.Rotated.eq {f g : Fault} (h : f.Rotated 0 g) : g = f := by
  have heq : ∀ {t t' : Tick}, t.Rotated 0 t' → t' = t := by
    rintro t t' (_ | ⟨-⟩)
    · rfl
    · simp [shift]
  cases h with
  | same => rfl
  | burstMissed hreached hexpected => rw [heq hreached, heq hexpected]

/-- Outcomes that are alike look the same if related values do. -/
theorem Alike.map_eq {α β γ : Type} {R : α → β → Prop} {x : Except Fault α} {y : Except Fault β}
    (h : Alike 0 R x y) {f : α → γ} {g : β → γ} (hR : ∀ a b, R a b → g b = f a) :
    y.map g = x.map f := by
  cases h with
  | ok h => exact congrArg Except.ok (hR _ _ h)
  | error h => exact congrArg Except.error h.eq

/-- The second driver and scene are the first ones after they were disturbed. The driver may have
recorded ticks, and everything may have happened to the entities. The world may be in another frame,
with another confirmed tick, and its scopes may have been opened with other windows. -/
inductive Prediction.Disturbed (x : Prediction τ φ × Scene τ φ H) :
    Prediction τ φ × Scene τ φ H → Prop
  /-- Everything else is kept. -/
  | intro {history : History} {ghosts : Ghosts} {elapsed : τ} {frame : Frame τ}
      {confirmed : Confirmed φ} {inGame : Bool} {host : H} {scopes : ScopeStack}
      {past : List (Event τ φ)} (hdepth : scopes.depth = x.2.world.scopes.depth)
      (hpast : past.map Event.untimed = x.2.world.past.map Event.untimed) :
      Disturbed x ({ x.1 with history }, ⟨{ x.2.world with
        time := { x.2.world.time with elapsed }
        frame, confirmed, inGame, host, scopes, past }, ghosts⟩)

namespace Prediction

variable {s s' : Prediction τ φ} {c c' : Scene τ φ H}

theorem Disturbed.refl (x : Prediction τ φ × Scene τ φ H) : Disturbed x x :=
  .intro rfl rfl

theorem Disturbed.trans {x x' x'' : Prediction τ φ × Scene τ φ H} (h : Disturbed x x')
    (h' : Disturbed x' x'') : Disturbed x x'' := by
  cases h with
  | intro hdepth hpast =>
    cases h' with
    | intro hdepth' hpast' => exact .intro (hdepth'.trans hdepth) (hpast'.trans hpast)

section Steps

variable [Fraction φ]

theorem wantsMore_disturbed (h : Disturbed (s, c) (s', c')) : wantsMore s' = wantsMore s := by
  cases h
  rfl

variable [Host H τ]

omit [Fraction φ] in
/-- Scopes that were opened with other windows are closed just as well. -/
theorem exitScope_disturbed (h : Disturbed (s, c) (s', c')) :
    Alike 0 (fun w w' => Disturbed (s, { c with world := w }) (s', { c' with world := w' }))
      c.world.exitScope c'.world.exitScope := by
  obtain ⟨w, g⟩ := c
  cases h with
  | @intro _ _ _ _ _ _ host scopes _ hdepth hpast =>
    obtain ⟨_, _, _, _, _, host₀, ⟨saved₀⟩, _⟩ := w
    obtain ⟨saved⟩ := scopes
    cases saved₀ with
    | nil =>
      cases List.length_eq_zero_iff.mp hdepth
      exact .fails _
    | cons replaced₀ saved₀ =>
      cases saved with
      | nil => cases hdepth
      | cons replaced saved => exact .ok (.intro (Nat.succ.inj hdepth) hpast)

omit [Host H τ]

variable [Seconds τ]

omit [Fraction φ] [Seconds τ] in
/-- A batch has a valid start. -/
theorem isValid_start_of_nextBatch {start point lastFull : Tick} {budget firstBudget : UInt32}
    {b : Batch} (h : nextBatch start point lastFull budget firstBudget = .ok b) :
    start.isValid = true := by
  by_contra hv
  have hsince : ∀ t : Tick, t.since start = .error .comparingInvalid := fun t => by
    simp [since, Bool.eq_false_iff.mpr hv]
  simp only [nextBatch, hsince, error_bind] at h
  split at h
  · cases h
  · obtain ⟨_, -, h⟩ := bind_eq_ok_iff.mp h
    cases h

variable [Clock τ φ]

theorem nextLeg_disturbed (h : Disturbed (s, c) (s', c')) :
    Alike 0 (fun x x' => (∃ history, x'.1 = { x.1 with history }) ∧
      ∃ window, x'.2.2 = { x.2.2 with window }) (nextLeg s c) (nextLeg s' c') := by
  cases h with
  | @intro history =>
    unfold nextLeg
    dsimp only
    cases hahead : s.ahead with
    | nil => exact .ok ⟨⟨history, by simp [partialLeg, hahead]⟩, ⟨_, rfl⟩⟩
    | cons point rest =>
      refine (Alike.same _).bind_of_ok ?_
      rintro b _ hb rfl
      refine (Alike.same _).bind ?_
      rintro firstTime _ rfl
      -- any entities join at a valid start
      have hstart := isValid_start_of_nextBatch hb
      rw [Ghosts.enableFrom_eq_ok _ hstart, Ghosts.enableFrom_eq_ok _ hstart, ok_bind, ok_bind]
      refine (Alike.same _).bind ?_
      rintro age _ rfl
      exact .ok ⟨⟨history, rfl⟩, ⟨_, rfl⟩⟩

variable [Host H τ]

/-- A disturbed driver takes the same step. -/
theorem step_disturbed (h : Disturbed (s, c) (s', c')) :
    Alike 0 Disturbed (step (s, c)) (step (s', c')) := by
  have hleg := nextLeg_disturbed h
  cases h with
  | intro hdepth hpast =>
    unfold step
    dsimp only
    refine (Alike.same _).bind ?_
    rintro invocations _ rfl
    refine hleg.bind ?_
    rintro ⟨s₁, ghosts, leg⟩ ⟨_, ghosts', _⟩ ⟨⟨history, rfl⟩, ⟨window, rfl⟩⟩
    refine (Alike.same _).bind ?_
    rintro predictedIndex _ rfl
    refine .ite_bind (.same _) (.same _) ?_
    rintro finals _ rfl
    refine .ok (.intro ?_ ?_)
    · exact congrArg Nat.succ hdepth
    · exact congrArg (_ :: ·) hpast

omit [Seconds τ] [Clock τ φ] in
/-- A disturbed burst ends alike. -/
theorem leave_disturbed (h : Disturbed (s, c) (s', c')) :
    Alike 0 Disturbed (leave (s, c)) (leave (s', c')) := by
  refine (exitScope_disturbed h).bind fun w w' hw => ?_
  cases hw with
  | intro hdepth hpast =>
    refine (Alike.same _).bind fun _ _ _ => ?_
    refine (Alike.same _).bind fun _ _ _ => ?_
    exact .ok (.intro hdepth (congrArg (_ :: ·) hpast))

/-- The steps of a burst leave the history alone. -/
theorem history_of_step {x : Prediction τ φ × Scene τ φ H} (h : step (s, c) = .ok x) :
    x.1.history = s.history := by
  obtain ⟨s', c'⟩ := x
  obtain ⟨s₁, ghosts, leg, hleg⟩ := exists_nextLeg h
  obtain ⟨-, rfl, -⟩ := (step_eq_ok_iff hleg).mp h
  exact (congrArg history (frame_of_nextLeg hleg) :)

end Steps

end Prediction

/-! ## What calls record -/

/-- The valid ticks among some calls are those that a history gained. -/
structure History.Gained (before : History) (calls : List (Session.Op τ φ H × Session.Reply τ φ H))
    (after : History) : Prop where
  applied : ∀ t, t ∈ after.applied.ticks ↔
    t ∈ before.applied.ticks ∨ t.isValid = true ∧ t ∈ calls.filterMap Session.applied?
  inputs : ∀ t, t ∈ after.inputs.ticks ↔
    t ∈ before.inputs.ticks ∨ t.isValid = true ∧ t ∈ calls.filterMap Session.input?

namespace History.Gained

variable {before between after : History}
  {calls later : List (Session.Op τ φ H × Session.Reply τ φ H)}

theorem nil : before.Gained ([] : List (Session.Op τ φ H × Session.Reply τ φ H)) before :=
  ⟨fun _ => by simp, fun _ => by simp⟩

variable {call : Session.Op τ φ H × Session.Reply τ φ H} {t : Tick}

theorem nothing (ha : Session.applied? call = none) (hi : Session.input? call = none) :
    before.Gained [call] before :=
  ⟨fun _ => by simp [ha], fun _ => by simp [hi]⟩

theorem recordApplied (ha : Session.applied? call = some t) (hi : Session.input? call = none) :
    before.Gained [call] (before.recordApplied t) :=
  ⟨fun _ => by simp [History.recordApplied, TickSet.mem_insert_iff, ha],
    fun _ => by simp [History.recordApplied, hi]⟩

theorem recordInput (ha : Session.applied? call = none) (hi : Session.input? call = some t) :
    before.Gained [call] (before.recordInput t) :=
  ⟨fun _ => by simp [History.recordInput, ha],
    fun _ => by simp [History.recordInput, TickSet.mem_insert_iff, hi]⟩

theorem append (h : Gained before calls between) (h' : Gained between later after) :
    Gained before (calls ++ later) after where
  applied t := by
    rw [h'.applied, h.applied, List.filterMap_append, List.mem_append, and_or_left, or_assoc]
  inputs t := by
    rw [h'.inputs, h.inputs, List.filterMap_append, List.mem_append, and_or_left, or_assoc]

end History.Gained

/-! ## Disturbed sessions -/

namespace Session

/-- The second session is the first one after its burst was disturbed. -/
structure Disturbed (s s' : Session τ φ H) : Prop where
  active : s'.prediction.active = s.prediction.active
  burst : Prediction.Disturbed (s.prediction.state, ⟨s.world, s.ghosts⟩)
    (s'.prediction.state, ⟨s'.world, s'.ghosts⟩)

/-- The session after a query of its prediction. -/
def withBurst (s : Session τ φ H) (active : Bool) (x : Prediction τ φ × Scene τ φ H) :
    Session τ φ H :=
  { s with prediction := ⟨active, x.1⟩, world := x.2.world, ghosts := x.2.ghosts }

variable {s s' s'' : Session τ φ H}

namespace Disturbed

theorem refl (s : Session τ φ H) : s.Disturbed s :=
  ⟨rfl, .refl _⟩

theorem trans (h : s.Disturbed s') (h' : s'.Disturbed s'') : s.Disturbed s'' :=
  ⟨h'.active.trans h.active, h.burst.trans h'.burst⟩

theorem withBurst (s s' : Session τ φ H) (active : Bool) {x x' : Prediction τ φ × Scene τ φ H}
    (h : Prediction.Disturbed x x') : (s.withBurst active x).Disturbed (s'.withBurst active x') :=
  ⟨rfl, h⟩

/-- A disturbed burst looks the same. -/
theorem sight_eq (h : s.Disturbed s') : s'.sight = s.sight := by
  obtain ⟨world, ghosts, server, ⟨active, state⟩, presentation⟩ := s
  obtain ⟨world', ghosts', server', ⟨active', state'⟩, presentation'⟩ := s'
  obtain ⟨hactive, hburst⟩ := h
  cases hburst with
  | intro hdepth hpast =>
    simp only [sight, World.events, List.map_reverse, Sight.mk.injEq, and_self, and_true]
    exact ⟨hactive, congrArg List.reverse hpast⟩

end Disturbed

variable [Seconds τ] [Fraction φ] [Clock τ φ] [Host H τ] {op : Op τ φ H} {ops : List (Op τ φ H)}

/-- What happens outside always returns, and only disturbs. -/
theorem act_outside (hop : op.Outside) (s : Session τ φ H) :
    ∃ reply s', s.act op = .ok (reply, s') ∧ s.Disturbed s' := by
  cases op with
  | endFrame | configure | serve | predict | present => exact hop.elim
  | applySnapshot id tick =>
    unfold act
    dsimp only
    split
    · exact ⟨_, _, rfl, .refl s⟩
    · exact ⟨_, _, rfl, rfl, .intro rfl rfl⟩
  | _ => exact ⟨_, _, rfl, rfl, .intro rfl rfl⟩

theorem run_outside (hops : ∀ op ∈ ops, op.Outside) (s : Session τ φ H) :
    ∃ replies s', s.run ops = .ok (replies, s') ∧ s.Disturbed s' := by
  induction ops generalizing s with
  | nil => exact ⟨[], s, rfl, .refl s⟩
  | cons op ops ih =>
    obtain ⟨hop, hops⟩ := List.forall_mem_cons.mp hops
    obtain ⟨reply, s₁, hact, h₁⟩ := act_outside hop s
    obtain ⟨replies, s₂, hrun, h₂⟩ := ih hops s₁
    exact ⟨reply :: replies, s₂, by simp [run, hact, hrun], h₁.trans h₂⟩

/-- A query of an open burst. -/
theorem query_of_open (hopen : s.prediction.active = true) :
    s.query = if Prediction.wantsMore s.prediction.state then do
        return (true,
          s.withBurst true (← Prediction.again (s.prediction.state, ⟨s.world, s.ghosts⟩)))
      else do
        return (false,
          s.withBurst false (← Prediction.leave (s.prediction.state, ⟨s.world, s.ghosts⟩))) := by
  obtain ⟨world, ghosts, server, ⟨active, state⟩, presentation⟩ := s
  cases hopen
  simp only [query, Prediction.query, Bracket.queryIn, Bracket.beside]
  rw [Bracket.query_of_active rfl]
  simp only [Bracket.goesOn, Prediction.hooks, ok_bind]
  split
  · cases Prediction.again (state, (⟨world, ghosts⟩ : Scene τ φ H)) <;> rfl
  · cases Prediction.leave (state, (⟨world, ghosts⟩ : Scene τ φ H)) <;> rfl

/-- A disturbed burst answers alike, and stays disturbed. -/
theorem query_disturbed (h : s.Disturbed s') (hopen : s.prediction.active = true) :
    Alike 0 (fun x x' => x'.1 = x.1 ∧ x.2.Disturbed x'.2 ∧ x.2.prediction.active = x.1)
      s.query s'.query := by
  rw [query_of_open hopen, query_of_open (h.active.trans hopen)]
  refine .ite (by rw [Prediction.wantsMore_disturbed h.burst]) (fun _ => ?_) fun _ => ?_
  · refine ((Prediction.exitScope_disturbed h.burst).bind fun _ _ hw =>
      Prediction.step_disturbed hw).bind fun x x' hx => .ok ⟨rfl, .withBurst s s' true hx, rfl⟩
  · exact (Prediction.leave_disturbed h.burst).bind fun x x' hx =>
      .ok ⟨rfl, .withBurst s s' false hx, rfl⟩

/-- Whatever comes between its queries, a burst goes on as if nothing did. -/
theorem attend_disturbed {rows : List (List (Op τ φ H))} (h : s.Disturbed s')
    (hopen : s.prediction.active = true) (hrows : ∀ row ∈ rows, ∀ op ∈ row, op.Outside) :
    Alike 0 (fun x x' => x.2.Disturbed x'.2) (s.attend (rows.map fun _ => []))
      (s'.attend rows) := by
  induction rows generalizing s s' with
  | nil => exact .ok h
  | cons row rows ih =>
    obtain ⟨hrow, hrows⟩ := List.forall_mem_cons.mp hrows
    obtain ⟨replies, s₁, hrun, h₁⟩ := run_outside hrow s'
    simp only [List.map_cons, attend, hrun, run, ok_bind]
    refine (query_disturbed (h.trans h₁) hopen).bind ?_
    rintro ⟨_, p⟩ ⟨more, q⟩ ⟨rfl, hpq, hmore⟩
    have hlater : Alike 0 (fun x x' => x.2.Disturbed x'.2)
        (if more then p.attend (rows.map fun _ => []) else .ok ([], p))
        (if more then q.attend rows else .ok ([], q)) :=
      .ite Iff.rfl (fun hm => ih hpq (hmore.trans hm) hrows) fun _ => .ok hpq
    exact hlater.bind fun _ _ hx => .ok hx

/-! ## What is kept for the next burst -/

/-- What is recorded is the tick of the call. -/
theorem gained_of_act (hop : op.Outside) {reply : Reply τ φ H} (h : s.act op = .ok (reply, s')) :
    s.prediction.state.history.Gained [(op, reply)] s'.prediction.state.history := by
  cases op with
  | endFrame | configure | serve | predict | present => exact hop.elim
  | recordApplied tick =>
    cases h
    exact .recordApplied rfl rfl
  | recordInput tick =>
    cases h
    exact .recordInput rfl rfl
  | applySnapshot id tick =>
    unfold act at h
    dsimp only at h
    split at h
    · cases h
      exact .nothing rfl rfl
    · rename_i heq
      cases h
      cases Ghosts.history_of_applySnapshot heq
      exact .recordApplied rfl rfl
  | _ =>
    cases h
    exact .nothing rfl rfl

theorem history_of_query {more : Bool} (hopen : s.prediction.active = true)
    (h : s.query = .ok (more, s')) :
    s'.prediction.state.history = s.prediction.state.history ∧ s'.prediction.active = more := by
  rw [query_of_open hopen] at h
  split at h
  · obtain ⟨x, hagain, h⟩ := bind_eq_ok_iff.mp h
    cases h
    obtain ⟨w, -, hstep⟩ := bind_eq_ok_iff.mp hagain
    exact ⟨Prediction.history_of_step hstep, rfl⟩
  · obtain ⟨x, hleave, h⟩ := bind_eq_ok_iff.mp h
    cases h
    rw [Prediction.leave_eq] at hleave
    obtain ⟨w, -, hsettle⟩ := bind_eq_ok_iff.mp hleave
    obtain ⟨-, -, -, rfl⟩ := Prediction.settle_eq_ok_iff.mp hsettle
    exact ⟨rfl, rfl⟩

theorem gained_of_run (hops : ∀ op ∈ ops, op.Outside) {replies : List (Reply τ φ H)}
    (h : s.run ops = .ok (replies, s')) :
    s.prediction.state.history.Gained (ops.zip replies) s'.prediction.state.history := by
  induction ops generalizing s replies with
  | nil =>
    cases h
    exact .nil
  | cons op ops ih =>
    obtain ⟨hop, hops⟩ := List.forall_mem_cons.mp hops
    obtain ⟨⟨reply, s₁⟩, hact, h⟩ := bind_eq_ok_iff.mp h
    obtain ⟨⟨replies, s₂⟩, hrun, h⟩ := bind_eq_ok_iff.mp h
    cases h
    exact (gained_of_act hop hact).append (ih hops hrun)

/-- Every call is told with its reply. -/
theorem length_of_run {replies : List (Reply τ φ H)} (h : s.run ops = .ok (replies, s')) :
    replies.length = ops.length := by
  induction ops generalizing s replies with
  | nil =>
    cases h
    rfl
  | cons op ops ih =>
    obtain ⟨_, -, h⟩ := bind_eq_ok_iff.mp h
    obtain ⟨⟨replies, s₂⟩, hrun, h⟩ := bind_eq_ok_iff.mp h
    cases h
    exact congrArg Nat.succ (ih hrun)

/-- A burst gains the ticks of the calls that were made before its queries, which are the rows in
order, as far as there were queries. -/
theorem gained_of_attend {rows : List (List (Op τ φ H))} (hopen : s.prediction.active = true)
    (hrows : ∀ row ∈ rows, ∀ op ∈ row, op.Outside) {calls : List (Op τ φ H × Reply τ φ H)}
    (h : s.attend rows = .ok (calls, s')) :
    (∃ n, calls.map Prod.fst = (rows.take n).flatten) ∧
      s.prediction.state.history.Gained calls s'.prediction.state.history := by
  induction rows generalizing s calls with
  | nil =>
    cases h
    exact ⟨⟨0, rfl⟩, .nil⟩
  | cons row rows ih =>
    obtain ⟨hrow, hrows⟩ := List.forall_mem_cons.mp hrows
    obtain ⟨⟨replies, s₁⟩, hrun, h⟩ := bind_eq_ok_iff.mp h
    obtain ⟨⟨more, s₂⟩, hquery, h⟩ := bind_eq_ok_iff.mp h
    obtain ⟨⟨later, s₃⟩, hlater, h⟩ := bind_eq_ok_iff.mp h
    cases h
    obtain ⟨_, _, hrun', hdisturbed⟩ := run_outside hrow s
    cases hrun.symm.trans hrun'
    obtain ⟨hsame, hactive⟩ := history_of_query (hdisturbed.active.trans hopen) hquery
    have hgained := gained_of_run hrow hrun
    rw [← hsame] at hgained
    have hmap : (row.zip replies).map Prod.fst = row :=
      List.map_fst_zip (length_of_run hrun).ge
    cases more with
    | false =>
      cases hlater
      exact ⟨⟨1, by simp [hmap]⟩, hgained.append .nil⟩
    | true =>
      obtain ⟨⟨n, hn⟩, hrest⟩ := ih hactive hrows hlater
      exact ⟨⟨n + 1, by simp [hmap, hn]⟩, hgained.append hrest⟩

/-! ## The burst at once -/

/-- A burst that nothing comes between is a course whose bodies do nothing. -/
theorem course_of_attend {rows : List (List (Op τ φ H))} (hopen : s.prediction.active = true)
    {calls : List (Op τ φ H × Reply τ φ H)}
    (h : s.attend (rows.map fun _ => []) = .ok (calls, s')) (hends : s'.prediction.active = false) :
    ∃ found w r, s.world.exitScope = .ok w ∧
      Prediction.Course .ok (s.prediction.state, ⟨w, s.ghosts⟩) found r ∧
      Prediction.settle r = .ok (s'.prediction.state, ⟨s'.world, s'.ghosts⟩) := by
  induction rows generalizing s calls with
  | nil =>
    cases h
    cases hends.symm.trans hopen
  | cons row rows ih =>
    obtain ⟨⟨_, _⟩, ⟨⟩, h⟩ := bind_eq_ok_iff.mp h
    obtain ⟨⟨more, s₂⟩, hquery, h⟩ := bind_eq_ok_iff.mp h
    obtain ⟨⟨later, s₃⟩, hlater, h⟩ := bind_eq_ok_iff.mp h
    cases h
    rw [query_of_open hopen] at hquery
    split at hquery
    · rename_i hmore
      obtain ⟨⟨p, c⟩, hagain, hquery⟩ := bind_eq_ok_iff.mp hquery
      cases hquery
      obtain ⟨w, hexit, hstep⟩ := bind_eq_ok_iff.mp hagain
      obtain ⟨found, w', r, hexit', hcourse, hsettle⟩ := ih rfl hlater
      exact ⟨c :: found, w, r, hexit, .leg hmore hstep rfl hexit' hcourse, hsettle⟩
    · rename_i hmore
      obtain ⟨⟨p, c⟩, hleave, hquery⟩ := bind_eq_ok_iff.mp hquery
      cases hquery
      cases hlater
      rw [Prediction.leave_eq] at hleave
      obtain ⟨w, hexit, hsettle⟩ := bind_eq_ok_iff.mp hleave
      exact ⟨[], w, _, hexit, .done (by simpa using hmore), hsettle⟩

/-- The first query of a burst sets it up and takes the first step. -/
theorem enters_of_query (hidle : s.prediction.active = false) (h : s.query = .ok (true, s')) :
    s'.prediction.active = true ∧ ∃ s₀ c₀,
      Prediction.wantsEntry (s.prediction.state, ⟨s.world, s.ghosts⟩) = .ok (true, s₀, c₀) ∧
      Prediction.step (Prediction.prepared s₀ c₀) =
        .ok (s'.prediction.state, ⟨s'.world, s'.ghosts⟩) := by
  obtain ⟨world, ghosts, server, ⟨active, state⟩, presentation⟩ := s
  cases hidle
  obtain ⟨⟨runs, b, c⟩, hturn, h⟩ := bind_eq_ok_iff.mp h
  cases h
  obtain ⟨⟨runs, b'⟩, hquery, h⟩ := bind_eq_ok_iff.mp hturn
  cases h
  obtain ⟨s₀, c₀, x, hentry, hstep, rfl⟩ := Prediction.query_enters_iff.mp hquery
  exact ⟨rfl, s₀, c₀, hentry, hstep⟩

/-- A burst that nothing comes between is the burst at once, with bodies that do nothing. -/
theorem exists_predict_of_attend {s₁ : Session τ φ H} {rows : List (List (Op τ φ H))}
    (hidle : s.prediction.active = false) (hbegins : s.query = .ok (true, s₁))
    {calls : List (Op τ φ H × Reply τ φ H)}
    (h : s₁.attend (rows.map fun _ => []) = .ok (calls, s'))
    (hends : s'.prediction.active = false) :
    ∃ found s₂, s.act (.predict .ok) = .ok (.predicted found, s₂) ∧ s₂.sight = s'.sight := by
  obtain ⟨hopen, s₀, c₀, hentry, hstep⟩ := enters_of_query hidle hbegins
  obtain ⟨found, w, r, hexit, hcourse, hsettle⟩ := course_of_attend hopen h hends
  have hmore := (Prediction.wantsMore_prepared s₀ c₀).trans
    (Prediction.begins_of_wantsEntry hentry).2
  have hburst := Prediction.Course.leg hmore hstep rfl hexit hcourse
  have hfits : found.length + 1 < UInt32.size := by
    have hcount : r.1.invocations.toNat = _ + (found.length + 1) := hburst.stretch.2
    exact (Nat.le_add_left _ _).trans_lt (hcount ▸ r.1.invocations.toNat_lt)
  have hrun := Prediction.run_eq_ok_iff.mpr (.burst hentry hburst hsettle hfits)
  obtain ⟨world, ghosts, server, ⟨active, state⟩, presentation⟩ := s
  cases hidle
  refine ⟨_, _, bind_eq_ok_iff.mpr ⟨_, hrun, rfl⟩, ?_⟩
  simp only [sight, hends, Bracket.idle]

/-! ## Isolation -/

/-- A burst is isolated and loses no tick. Whatever comes between its queries, it looks as if
nothing did: it answers, emits and faults the same. Its history holds exactly the valid ticks that
were recorded since it was set up. When it ends, it looks like the burst at once, with bodies that
do nothing. -/
theorem burst_isolated {s₁ : Session τ φ H} (hidle : s.prediction.active = false)
    (hbegins : s.query = .ok (true, s₁)) {rows : List (List (Op τ φ H))}
    (hrows : ∀ row ∈ rows, ∀ op ∈ row, op.Outside) :
    (s₁.attend rows).map (fun x => x.2.sight) =
        (s₁.attend (rows.map fun _ => [])).map (fun x => x.2.sight) ∧
      ∀ calls s', s₁.attend rows = .ok (calls, s') →
        (∃ n, calls.map Prod.fst = (rows.take n).flatten) ∧
        (∀ t, t ∈ s'.prediction.state.history.applied.ticks ↔
          t.isValid = true ∧ t ∈ calls.filterMap applied?) ∧
        (∀ t, t ∈ s'.prediction.state.history.inputs.ticks ↔
          t.isValid = true ∧ t ∈ calls.filterMap input?) ∧
        (s'.prediction.active = false → ∃ found s₂,
          s.act (.predict .ok) = .ok (.predicted found, s₂) ∧ s'.sight = s₂.sight) := by
  obtain ⟨hopen, s₀, c₀, hentry, hstep⟩ := enters_of_query hidle hbegins
  have hempty : s₁.prediction.state.history = History.empty := by
    rw [← (Prediction.begins_of_wantsEntry hentry).1]
    exact Prediction.history_of_step hstep
  have hsights : (s₁.attend rows).map (fun x => x.2.sight) =
      (s₁.attend (rows.map fun _ => [])).map (fun x => x.2.sight) :=
    (attend_disturbed (.refl s₁) hopen hrows).map_eq fun _ _ h => h.sight_eq
  refine ⟨hsights, fun calls s' h => ?_⟩
  obtain ⟨hcalls, hgained⟩ := gained_of_attend hopen hrows h
  rw [hempty] at hgained
  refine ⟨hcalls, fun t => ?_, fun t => ?_, fun hends => ?_⟩
  · rw [hgained.applied]
    exact or_iff_right List.not_mem_nil
  · rw [hgained.inputs]
    exact or_iff_right List.not_mem_nil
  · -- the same rows without calls end the burst, too
    cases hquiet : s₁.attend (rows.map fun _ => []) with
    | error f =>
      rw [h, hquiet] at hsights
      cases hsights
    | ok x =>
      obtain ⟨calls', s''⟩ := x
      rw [h, hquiet] at hsights
      have hsight : s'.sight = s''.sight := Except.ok.inj hsights
      have hends' : s''.prediction.active = false := (congrArg Sight.isOpen hsight).symm.trans hends
      obtain ⟨found, s₂, hact, hsame⟩ := exists_predict_of_attend hidle hbegins hquiet hends'
      exact ⟨found, s₂, hact, hsight.trans hsame.symm⟩

/-- A client with one predicted entity, before a burst from tick `7` to the middle of tick `11`. -/
def catchingUp : Session Rat Rat (TallyHost Rat) :=
  let s := start Config.sixty TallyHost.empty Tick.invalid
  { s with
    world := { s.world with confirmed := .inProgress (Tick.ofIndex 11) (1 / 2) }
    ghosts := Ghosts.empty.spawn (EntityId.handedOut 0)
  }.withHistory ((History.empty.recordApplied (Tick.ofIndex 7)).recordInput (Tick.ofIndex 9))

/-- Meanwhile a later tick is confirmed, state arrives for an entity that is there, for one that is
gone and of no tick, and so does input. -/
def meanwhile : List (List (Op Rat Rat (TallyHost Rat))) :=
  [[.confirm (.whole (Tick.ofIndex 20)), .applySnapshot (EntityId.handedOut 0) (Tick.ofIndex 8)],
    [.beginFrame (1 / 60), .recordInput (Tick.ofIndex 12), .despawn (EntityId.handedOut 0)],
    [.applySnapshot (EntityId.handedOut 0) (Tick.ofIndex 10), .spawn (EntityId.handedOut 1)],
    [.setInGame false, .recordApplied Tick.invalid, .recordInput (Tick.ofIndex 12)]]

/-- The burst ends as it would have, and of the ten calls the two that brought something new are
kept. -/
theorem burst_isolated_meanwhile : ∃ s₁ calls s' found s₂,
    catchingUp.query = .ok (true, s₁) ∧ s₁.attend meanwhile = .ok (calls, s') ∧
      calls.length = 10 ∧ s'.prediction.active = false ∧
      s'.prediction.state.history.applied.ticks = [Tick.ofIndex 8] ∧
      s'.prediction.state.history.inputs.ticks = [Tick.ofIndex 12] ∧
      catchingUp.act (.predict .ok) = .ok (.predicted found, s₂) ∧ s'.sight = s₂.sight := by
  have houtside : ∀ row ∈ meanwhile, ∀ op ∈ row, op.Outside := by
    simp [meanwhile, Op.Outside]
  have hpoints : catchingUp.prediction.state.ListsPoints catchingUp.scene (Tick.ofIndex 7)
      [Tick.ofIndex 7, Tick.ofIndex 8, Tick.ofIndex 10] := by decide +kernel
  have hentry := hpoints.goesBy (by decide +kernel) (by decide +kernel) (by decide +kernel)
  have hquery : Prediction.query catchingUp.prediction ⟨catchingUp.world, catchingUp.ghosts⟩ = _ :=
    hentry.query_eq_guided
  have htold : (do
      let (more, s₁) ← catchingUp.query
      let (calls, s') ← s₁.attend meanwhile
      return (more, calls.length, s'.prediction.active,
        s'.prediction.state.history.applied.ticks, s'.prediction.state.history.inputs.ticks)) =
      .ok (true, 10, false, [Tick.ofIndex 8], [Tick.ofIndex 12]) := by
    simp only [query, hquery]
    decide +kernel
  obtain ⟨⟨more, s₁⟩, hbegins, htold⟩ := bind_eq_ok_iff.mp htold
  obtain ⟨⟨calls, s'⟩, hattend, htold⟩ := bind_eq_ok_iff.mp htold
  simp only [pure_eq_ok, Except.ok.injEq, Prod.mk.injEq] at htold
  obtain ⟨rfl, hlength, hends, happlied, hinputs⟩ := htold
  obtain ⟨-, hall⟩ := burst_isolated rfl hbegins houtside
  obtain ⟨-, -, -, hwhole⟩ := hall calls s' hattend
  obtain ⟨found, s₂, hact, hsight⟩ := hwhole hends
  exact ⟨s₁, calls, s', found, s₂, hbegins, hattend, hlength, hends, happlied, hinputs, hact,
    hsight⟩

end Session

end Metronome
