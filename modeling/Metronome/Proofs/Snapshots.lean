import Metronome.Proofs.Isolation

/-!
# State that arrives

Between bursts entities come and go, and are given state of ticks. Such a call does one of five
things (`Session.Handled`): state that is accepted reaches the entity and the history at once, and a
refusal changes nothing. From the calls in a row one can therefore tell the history, and of each
entity what has become of it (`Session.Fate`): it was there all the time, or it appeared with the
last call that was about its coming and going, or it disappeared with that call.
-/

namespace Metronome

variable {τ φ H : Type}

/-- An entity after it was given state of a tick, if of any. Whether it takes part stays. -/
def Ghost.given (g : Ghost) (tick : Option Tick) : Ghost := { g with base := tick.getD g.base }

theorem Ghost.given_given (g : Ghost) (earlier later : Option Tick) :
    (g.given earlier).given later = g.given (later.or earlier) := by
  cases later <;> rfl

namespace Session

/-- The calls by which entities come, go and are given state. -/
def Op.OnEntities : Op τ φ H → Prop
  | spawn _ | despawn _ | applySnapshot _ _ => True
  | beginFrame _ | endFrame | configure _ | setInGame _ | confirm _ | recordApplied _
  | recordInput _ | serve _ | predict _ | present _ => False

theorem Op.OnEntities.outside {op : Op τ φ H} (h : op.OnEntities) : op.Outside := by
  cases op <;> trivial

/-- The call is not about the coming and going of an entity. -/
def Op.Leaves (op : Op τ φ H) (id : EntityId) : Prop := op ≠ .spawn id ∧ op ≠ .despawn id

/-! ## One call -/

/-- What a call on the entities does to a session. -/
inductive Handled (s : Session τ φ H) : Op τ φ H → Reply τ φ H → Session τ φ H → Prop
  /-- An entity appears. -/
  | spawn (id : EntityId) : Handled s (.spawn id) .done { s with ghosts := s.ghosts.spawn id }
  /-- An entity disappears. -/
  | despawn (id : EntityId) : Handled s (.despawn id) .done { s with ghosts := s.ghosts.despawn id }
  /-- State of no tick is refused. -/
  | invalidTick (id : EntityId) {tick : Tick} (invalid : tick.isValid = false) :
      Handled s (.applySnapshot id tick) (.refused .invalidTick) s
  /-- State for no entity is refused. -/
  | unknown {id : EntityId} {tick : Tick} (valid : tick.isValid = true)
      (absent : s.ghosts.get? id = none) :
      Handled s (.applySnapshot id tick) (.refused (.unknown id)) s
  /-- State reaches the entity and the history. -/
  | given {id : EntityId} {tick : Tick} (valid : tick.isValid = true)
      (present : s.ghosts.get? id ≠ none) :
      Handled s (.applySnapshot id tick) .done
        { s.withHistory (s.prediction.state.history.recordApplied tick) with
          ghosts := s.ghosts.modify (·.given (some tick)) id }

/-- The tick of the state that a call with this reply gave to an entity. -/
def given? (id : EntityId) : Op τ φ H → Reply τ φ H → Option Tick
  | .applySnapshot other tick, .done => if other = id then some tick else none
  | _, _ => none

section Handled

variable {s s' : Session τ φ H} {op : Op τ φ H} {reply : Reply τ φ H}

theorem handled_of_act [Seconds τ] [Fraction φ] [Clock τ φ] [Host H τ] (hop : op.OnEntities)
    (h : s.act op = .ok (reply, s')) : s.Handled op reply s' := by
  cases op with
  | spawn id =>
    cases h
    exact .spawn id
  | despawn id =>
    cases h
    exact .despawn id
  | applySnapshot id tick =>
    rw [act] at h
    cases hvalid : tick.isValid with
    | false =>
      rw [Ghosts.applySnapshot_of_invalid hvalid] at h
      cases h
      exact .invalidTick id hvalid
    | true =>
      by_cases habsent : s.ghosts.get? id = none
      · rw [Ghosts.applySnapshot_of_absent hvalid habsent] at h
        cases h
        exact .unknown hvalid habsent
      · rw [Ghosts.applySnapshot_of_present hvalid habsent] at h
        cases h
        exact .given hvalid habsent
  | _ => exact hop.elim

/-- Why state is refused: first because of its tick, then because of its entity. A refusal changes
nothing. -/
theorem Handled.reply_iff (h : s.Handled op reply s') {id : EntityId} {tick : Tick}
    (hop : op = .applySnapshot id tick) :
    (reply = .refused .invalidTick ↔ tick.isValid = false) ∧
      (reply = .refused (.unknown id) ↔ tick.isValid = true ∧ s.ghosts.get? id = none) ∧
      (reply = .done ↔ tick.isValid = true ∧ s.ghosts.get? id ≠ none) ∧
      (reply ≠ .done → s' = s) := by
  cases h with
  | spawn | despawn => cases hop
  | invalidTick _ invalid =>
    cases hop
    simp [invalid]
  | unknown valid absent =>
    cases hop
    simp [valid, absent]
  | given valid present =>
    cases hop
    simp [valid, present]

/-- Only state that is accepted is recorded. -/
theorem applied?_eq_some_iff (hop : op.OnEntities) {t : Tick} :
    applied? (op, reply) = some t ↔ ∃ id, op = .applySnapshot id t ∧ reply = .done := by
  cases op with
  | spawn | despawn => exact ⟨nofun, fun ⟨_, h, _⟩ => nomatch h⟩
  | applySnapshot id tick => cases reply <;> simp [applied?]
  | _ => exact hop.elim

theorem Handled.inputs_eq (h : s.Handled op reply s') :
    s'.prediction.state.history.inputs = s.prediction.state.history.inputs := by
  cases h <;> rfl

/-- A call changes no more of an entity that stays than the tick of its state. -/
theorem Handled.get?_of_leaves (h : s.Handled op reply s')
    (hunused : ∀ id, op = .spawn id → s.ghosts.get? id = none) {id : EntityId}
    (hleaves : op.Leaves id) :
    s'.ghosts.get? id = (s.ghosts.get? id).map (·.given (given? id op reply)) := by
  have hsame : s.ghosts.get? id = (s.ghosts.get? id).map (·.given none) := Option.map_id'.symm
  cases h with
  | spawn other =>
    have hne : id ≠ other := fun heq => hleaves.1 (heq ▸ rfl)
    exact (Ghosts.get?_spawn (hunused other rfl) id).trans ((if_neg hne).trans hsame)
  | despawn other =>
    have hne : id ≠ other := fun heq => hleaves.2 (heq ▸ rfl)
    exact (Ghosts.get?_despawn _ other id).trans ((if_neg hne).trans hsame)
  | invalidTick | unknown => exact hsame
  | @given other tick valid present =>
    have hgiven : given? id (.applySnapshot other tick : Op τ φ H) .done =
        if other = id then some tick else none := rfl
    refine (Ghosts.get?_modify _ _ other id).trans ?_
    by_cases heq : id = other
    · rw [hgiven, if_pos heq, if_pos heq.symm, heq]
    · rw [hgiven, if_neg heq, if_neg (Ne.symm heq)]
      exact hsame

/-- An entity that appears was given no state. -/
theorem Handled.get?_of_spawn {id : EntityId} (h : s.Handled (.spawn id) reply s')
    (hid : s.ghosts.get? id = none) : s'.ghosts.get? id = some Ghost.fresh := by
  cases h
  exact (Ghosts.get?_spawn hid id).trans (if_pos rfl)

theorem Handled.get?_of_despawn {id : EntityId} (h : s.Handled (.despawn id) reply s') :
    s'.ghosts.get? id = none := by
  cases h
  exact (Ghosts.get?_despawn _ id id).trans (if_pos rfl)

end Handled

/-! ## Calls in a row -/

/-- The tick of the state that was given to an entity last. -/
def newest (id : EntityId) (calls : List (Call τ φ H)) : Option Tick :=
  (calls.filterMap fun c => given? id c.op c.reply).getLast?

theorem newest_snoc (id : EntityId) (calls : List (Call τ φ H)) (c : Call τ φ H) :
    newest id (calls ++ [c]) = (given? id c.op c.reply).or (newest id calls) := by
  rw [newest, List.filterMap_append, List.getLast?_append]
  cases hgiven : given? id c.op c.reply <;> simp [newest, hgiven]

/-- What has become of an entity with some calls on a session. -/
inductive Fate (s : Session τ φ H) (id : EntityId) (calls : List (Call τ φ H)) :
    Option Ghost → Prop
  /-- It was there all the time, or never. -/
  | stayed (leaves : ∀ c ∈ calls, c.op.Leaves id) :
      Fate s id calls ((s.ghosts.get? id).map (·.given (newest id calls)))
  /-- It appeared with a call, and was there since. -/
  | appeared {before later : List (Call τ φ H)} {c : Call τ φ H}
      (split : calls = before ++ c :: later) (spawns : c.op = .spawn id)
      (leaves : ∀ c ∈ later, c.op.Leaves id) :
      Fate s id calls (some (Ghost.fresh.given (newest id later)))
  /-- It disappeared with a call, if it was there, and did not come back. -/
  | disappeared {before later : List (Call τ φ H)} {c : Call τ φ H}
      (split : calls = before ++ c :: later) (despawns : c.op = .despawn id)
      (leaves : ∀ c ∈ later, c.op.Leaves id) : Fate s id calls none

section Fate

variable {s s' : Session τ φ H} {id : EntityId} {calls : List (Call τ φ H)} {g : Option Ghost}

theorem Fate.nil (s : Session τ φ H) (id : EntityId) : Fate s id [] (s.ghosts.get? id) := by
  have hstayed : Fate s id [] ((s.ghosts.get? id).map (·.given none)) :=
    .stayed (List.forall_mem_nil _)
  have hsame : (s.ghosts.get? id).map (·.given none) = s.ghosts.get? id := Option.map_id'
  exact hsame ▸ hstayed

/-- With a call that leaves it an entity keeps its fate. -/
theorem Fate.leave (h : Fate s id calls g) {c : Call τ φ H} (hleaves : c.op.Leaves id) :
    Fate s id (calls ++ [c]) (g.map (·.given (given? id c.op c.reply))) := by
  have hsnoc : ∀ {calls : List (Call τ φ H)}, (∀ c ∈ calls, c.op.Leaves id) →
      ∀ c' ∈ calls ++ [c], c'.op.Leaves id := fun hall =>
    List.forall_mem_append.mpr ⟨hall, List.forall_mem_singleton.mpr hleaves⟩
  have hlonger : ∀ {before later : List (Call τ φ H)} {c' : Call τ φ H},
      calls = before ++ c' :: later → calls ++ [c] = before ++ c' :: (later ++ [c]) := by
    rintro _ _ _ rfl
    rw [List.append_assoc, List.cons_append]
  cases h with
  | stayed leaves =>
    have hstayed := Fate.stayed (s := s) (hsnoc leaves)
    rw [newest_snoc] at hstayed
    rw [Option.map_map]
    simpa only [Function.comp_def, Ghost.given_given] using hstayed
  | appeared split spawns leaves =>
    have happeared := Fate.appeared (s := s) (hlonger split) spawns (hsnoc leaves)
    rw [newest_snoc, ← Ghost.given_given] at happeared
    exact happeared
  | disappeared split despawns leaves =>
    exact .disappeared (hlonger split) despawns (hsnoc leaves)

/-- What has become of an entity is told by one call after the other. -/
theorem Fate.step {c : Call τ φ H} (h : Fate s id calls (c.before.ghosts.get? id))
    (hc : c.before.Handled c.op c.reply c.after)
    (hunused : ∀ id, c.op = .spawn id → c.before.ghosts.get? id = none) :
    Fate s id (calls ++ [c]) (c.after.ghosts.get? id) := by
  by_cases hspawns : c.op = .spawn id
  · rw [hspawns] at hc
    rw [hc.get?_of_spawn (hunused id hspawns)]
    exact .appeared rfl hspawns (List.forall_mem_nil _)
  by_cases hdespawns : c.op = .despawn id
  · rw [hdespawns] at hc
    rw [hc.get?_of_despawn]
    exact .disappeared rfl hdespawns (List.forall_mem_nil _)
  · have hleaves : c.op.Leaves id := ⟨hspawns, hdespawns⟩
    rw [hc.get?_of_leaves hunused hleaves]
    exact h.leave hleaves

end Fate

section Rows

variable [Seconds τ] [Fraction φ] [Clock τ φ] [Host H τ]

/-- Each entity that appears has an identifier that is not in use. -/
def SpawnsUnused (s : Session τ φ H) : List (Op τ φ H) → Prop
  | [] => True
  | op :: ops =>
    (∀ id, op = .spawn id → s.ghosts.get? id = none) ∧
      ∀ reply s', s.act op = .ok (reply, s') → s'.SpawnsUnused ops

variable {s s' : Session τ φ H} {calls : List (Call τ φ H)}

/-- Where no entity appears, no identifier is drawn. -/
theorem spawnsUnused_of_forall {ops : List (Op τ φ H)} (h : ∀ id, .spawn id ∉ ops) :
    s.SpawnsUnused ops := by
  induction ops generalizing s with
  | nil => trivial
  | cons op ops ih =>
    refine ⟨fun id heq => ?_, fun _ _ _ => ih fun id hmem => h id (List.mem_cons_of_mem op hmem)⟩
    exact absurd (heq ▸ List.mem_cons_self) (h id)

theorem Along.handled (h : Along s calls s') (hops : ∀ c ∈ calls, c.op.OnEntities)
    (hunused : s.SpawnsUnused (calls.map Call.op)) :
    ∀ c ∈ calls, c.before.Handled c.op c.reply c.after ∧
      ∀ id, c.op = .spawn id → c.before.ghosts.get? id = none := by
  induction h with
  | nil => exact fun _ hc => absurd hc List.not_mem_nil
  | cons acts _ ih =>
    obtain ⟨hop, hops⟩ := List.forall_mem_cons.mp hops
    obtain ⟨hid, hrest⟩ := hunused
    exact List.forall_mem_cons.mpr ⟨⟨handled_of_act hop acts, hid⟩, ih hops (hrest _ _ acts)⟩

/-- The history gains the ticks of the calls that were accepted. -/
theorem mem_applied_of_run (h : s.run (calls.map Call.op) = .ok (calls.map Call.reply, s'))
    (hops : ∀ c ∈ calls, c.op.OnEntities)
    (hcalls : ∀ c ∈ calls, c.before.Handled c.op c.reply c.after) (t : Tick) :
    t ∈ s'.prediction.state.history.applied.ticks ↔
      t ∈ s.prediction.state.history.applied.ticks ∨
        ∃ c ∈ calls, ∃ id, c.op = .applySnapshot id t ∧ c.reply = .done := by
  have houtside : ∀ op ∈ calls.map Call.op, op.Outside :=
    List.forall_mem_map.mpr fun c hc => (hops c hc).outside
  rw [(gained_of_run houtside h).applied, List.zip_map', List.filterMap_map, List.mem_filterMap]
  refine or_congr_right ⟨fun ⟨_, c, hc, happlied⟩ => ?_, fun ⟨c, hc, id, hop, hdone⟩ => ?_⟩
  · exact ⟨c, hc, (applied?_eq_some_iff (hops c hc)).mp happlied⟩
  · have hvalid := (((hcalls c hc).reply_iff hop).2.2.1.mp hdone).1
    exact ⟨hvalid, c, hc, (applied?_eq_some_iff (hops c hc)).mpr ⟨id, hop, hdone⟩⟩

/-- What has become of an entity is told by all calls. -/
theorem Along.fate {s₀ : Session τ φ H} {earlier : List (Call τ φ H)} {id : EntityId}
    (h : Along s calls s') (hcalls : ∀ c ∈ calls, c.before.Handled c.op c.reply c.after ∧
      ∀ id, c.op = .spawn id → c.before.ghosts.get? id = none)
    (hfate : Fate s₀ id earlier (s.ghosts.get? id)) :
    Fate s₀ id (earlier ++ calls) (s'.ghosts.get? id) := by
  induction h generalizing earlier with
  | nil => rwa [List.append_nil]
  | @cons c cs s' _ _ ih =>
    obtain ⟨⟨hc, hunused⟩, hcalls⟩ := List.forall_mem_cons.mp hcalls
    rw [List.append_cons]
    exact ih hcalls (hfate.step hc hunused)

/-- State that arrives reaches the entity and the history at once, or neither of them. Between two
bursts entities may come and go and be given state in any order. Each call returns; state is refused
exactly if its tick is none, or else if there is no such entity, and a refusal changes nothing. In
the end the history has gained the ticks of the calls that were accepted, also for entities that are
gone; no input has arrived; and an entity that is there is what it was, or a new one, but for the
tick of the state that it was given last. -/
theorem snapshots_reach_both (s : Session τ φ H) {ops : List (Op τ φ H)}
    (hops : ∀ op ∈ ops, op.OnEntities) (hunused : s.SpawnsUnused ops) :
    ∃ calls s', s.run ops = .ok (calls.map Call.reply, s') ∧ Along s calls s' ∧
      calls.map Call.op = ops ∧
      (∀ c ∈ calls, ∀ id tick, c.op = .applySnapshot id tick →
        (c.reply = .refused .invalidTick ↔ tick.isValid = false) ∧
        (c.reply = .refused (.unknown id) ↔
          tick.isValid = true ∧ c.before.ghosts.get? id = none) ∧
        (c.reply = .done ↔ tick.isValid = true ∧ c.before.ghosts.get? id ≠ none) ∧
        (c.reply ≠ .done → c.after = c.before)) ∧
      (∀ t, t ∈ s'.prediction.state.history.applied.ticks ↔
        t ∈ s.prediction.state.history.applied.ticks ∨
          ∃ c ∈ calls, ∃ id, c.op = .applySnapshot id t ∧ c.reply = .done) ∧
      s'.prediction.state.history.inputs = s.prediction.state.history.inputs ∧
      ∀ id, Fate s id calls (s'.ghosts.get? id) := by
  obtain ⟨replies, s', hrun, -⟩ := run_outside (fun op hop => (hops op hop).outside) s
  obtain ⟨calls, halong, rfl, rfl⟩ := along_of_run hrun
  have hcallops := List.forall_mem_map.mp hops
  have hcalls := halong.handled hcallops hunused
  have hhandled := fun c hc => (hcalls c hc).1
  refine ⟨calls, s', hrun, halong, rfl, fun c hc id tick hop => (hhandled c hc).reply_iff hop,
    mem_applied_of_run hrun hcallops hhandled, ?_, fun id => ?_⟩
  · exact halong.same (fun s => s.prediction.state.history.inputs) fun c hc =>
      (hhandled c hc).inputs_eq
  · exact halong.fate hcalls (Fate.nil s id)

end Rows

/-- A client between two bursts, whose one entity does not take part. -/
def waiting : Session Rat Rat (TallyHost Rat) :=
  { catchingUp with ghosts := catchingUp.ghosts.disableAll }

/-- An entity appears, is given state, and disappears; state arrives for it after that too, and for
the other one twice. Some of it is of no tick. -/
def arrivals : List (Op Rat Rat (TallyHost Rat)) :=
  [.spawn (EntityId.handedOut 1), .applySnapshot (EntityId.handedOut 0) (Tick.ofIndex 8),
    .applySnapshot (EntityId.handedOut 1) (Tick.ofIndex 10),
    .applySnapshot (EntityId.handedOut 1) Tick.invalid, .despawn (EntityId.handedOut 1),
    .applySnapshot (EntityId.handedOut 1) (Tick.ofIndex 12),
    .applySnapshot (EntityId.handedOut 1) Tick.invalid,
    .applySnapshot (EntityId.handedOut 0) (Tick.ofIndex 9)]

/-- Three of the six ticks are accepted, one of them for the entity that is gone. -/
theorem snapshots_reach_both_waiting : ∃ calls s',
    waiting.run arrivals = .ok (calls.map Call.reply, s') ∧
      calls.map Call.reply = [.done, .done, .done, .refused .invalidTick, .done,
        .refused (.unknown (EntityId.handedOut 1)), .refused .invalidTick, .done] ∧
      s'.prediction.state.history.applied.ticks =
        [Tick.ofIndex 9, Tick.ofIndex 10, Tick.ofIndex 8, Tick.ofIndex 7] ∧
      s'.prediction.state.history.inputs.ticks = [Tick.ofIndex 9] ∧
      s'.ghosts.get? (EntityId.handedOut 0) = some ⟨Tick.ofIndex 9, false⟩ ∧
      Fate waiting (EntityId.handedOut 1) calls none := by
  have hops : ∀ op ∈ arrivals, op.OnEntities := by
    simp [arrivals, Op.OnEntities]
  have hunused : waiting.SpawnsUnused arrivals := by
    refine ⟨fun id heq => ?_, fun _ _ _ => spawnsUnused_of_forall fun id => by simp⟩
    cases heq
    rfl
  obtain ⟨calls, s', hrun, -, -, -, -, hinputs, hfate⟩ := snapshots_reach_both waiting hops hunused
  have htold : (waiting.run arrivals).map (fun x => (x.1,
      x.2.prediction.state.history.applied.ticks, x.2.ghosts.get? (EntityId.handedOut 0),
      x.2.ghosts.get? (EntityId.handedOut 1))) =
      .ok ([.done, .done, .done, .refused .invalidTick, .done,
        .refused (.unknown (EntityId.handedOut 1)), .refused .invalidTick, .done],
        [Tick.ofIndex 9, Tick.ofIndex 10, Tick.ofIndex 8, Tick.ofIndex 7],
        some ⟨Tick.ofIndex 9, false⟩, none) := by
    rfl
  rw [hrun] at htold
  simp only [Except.map, Except.ok.injEq, Prod.mk.injEq] at htold
  obtain ⟨hreplies, happlied, hfirst, hsecond⟩ := htold
  refine ⟨calls, s', hrun, hreplies, happlied, ?_, hfirst, ?_⟩
  · rw [hinputs]
    rfl
  · rw [← hsecond]
    exact hfate _

end Session

end Metronome
