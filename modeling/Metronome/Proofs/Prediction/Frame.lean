import Metronome.Proofs.Prediction.Progress

/-!
# A frame of the driver

What a whole frame comes to, if no replay point lies on the far side of the circle. Either there is
nothing to replay, or a replay takes the driver from the oldest point to the target, and one more
invocation follows if the confirmed tick is under way (`run_scenes`, `run_cases`). With a quiet body
the frame returns (`exists_run`).
-/

namespace Metronome

open Tick

/-- The invocations of a frame, as its bodies found them. -/
def Bracket.Turn.invocations {τ φ H : Type} (t : Bracket.Turn (Prediction τ φ) (Scene τ φ H)) :
    List (Invocation τ φ) :=
  t.found.filterMap Scene.invocation?

/-- The scene of the first step of a burst. -/
def Scene.entered {τ φ H : Type} [Fraction φ] (c : Scene τ φ H) (start : Tick) : Scene τ φ H :=
  { c.begun start with world := { (c.begun start).world with
      time := { (c.begun start).world.time with
        predictedIndex := 0
        flags := (c.begun start).world.time.flags.insert StepFlags.inLoop } } }

namespace Prediction

variable {τ φ H : Type} [Seconds τ] [Fraction φ] [Clock τ φ] {s : Prediction τ φ} {c : Scene τ φ H}

/-- The driver that takes the first step of a burst. -/
def entered (s : Prediction τ φ) (c : Scene τ φ H) (start : Tick) (ahead : List Tick) :
    Prediction τ φ :=
  { s.begun c start ahead with savedBatch := c.world.time.batch }

@[simp] theorem entered_target (s : Prediction τ φ) (c : Scene τ φ H) (start : Tick)
    (ahead : List Tick) : (s.entered c start ahead).target = c.world.confirmed.target :=
  rfl

@[simp] theorem entered_start (s : Prediction τ φ) (c : Scene τ φ H) (start : Tick)
    (ahead : List Tick) : (s.entered c start ahead).start = start :=
  rfl

omit [Seconds τ] [Clock τ φ] in
theorem Sound.onCircle_planned (hs : s.Sound) (hc : c.world.confirmed.tick.OnCircle) :
    (s.planned c).lastFull.OnCircle := by
  have hg := Confirmed.onCircle_target hc
  unfold planned
  split
  · exact hg
  · exact onCircle_seeded hs.lastFull hg

/-- A burst begins on its route. -/
theorem Sound.onRoute_entered (hs : s.Sound) (hc : c.world.confirmed.tick.OnCircle) {start : Tick}
    {near far : List Tick} (hr : Route c.world.confirmed.target (start :: near)) :
    OnRoute (s.entered c start (near ++ far)) near far where
  ahead := rfl
  route := hr
  lastFull := hs.onCircle_planned hc
  budget := by
    simp only [entered, begun]
    split
    · exact one_le_atLeastOne _
    · exact one_le_atLeastOne _

/-- The same without points on the far side. -/
theorem Sound.onRoute_near (hs : s.Sound) (hc : c.world.confirmed.tick.OnCircle) {start : Tick}
    {near : List Tick} (hr : Route c.world.confirmed.target (start :: near)) :
    OnRoute (s.entered c start near) near [] := by
  have hon : OnRoute (s.entered c start (near ++ [])) near [] := hs.onRoute_entered hc hr
  rwa [List.append_nil] at hon

/-- What a replay from the first step of a burst leaves as it was set up. -/
theorem Replay.frame_entered {P : Config τ φ → Prop} {start : Tick} {near far ahead : List Tick}
    {is : List (Invocation τ φ)} {s₁ : Prediction τ φ}
    (h : Replay P far near (s.entered c start ahead) is s₁) :
    s₁.target = c.world.confirmed.target ∧ s₁.confirmed = c.world.confirmed ∧
    s₁.partialDone = false ∧
      s₁.history = History.empty := by
  obtain ⟨htarget, hconfirmed, hdone, hhistory, -, -⟩ := h.frame
  exact ⟨htarget, hconfirmed, hdone, hhistory⟩

/-- The driver goes by a list of points: it begins a burst at the first if there is another one or
the confirmed tick is under way, and skips the frame otherwise. -/
def GoesBy (s : Prediction τ φ) (c : Scene τ φ H) (start : Tick) (ahead : List Tick) : Prop :=
  wantsEntry (s, c) =
    .ok (if ahead = [] ∧ c.world.confirmed.isPartial = false then
        skip .nothingToReplay (s.planned c) c
      else (true, s.begun c start ahead, c.begun start))

/-- The driver goes by the points of its frame, listed in order. -/
theorem ListsPoints.goesBy {oldest start : Tick} {ahead : List Tick}
    (h : s.ListsPoints c oldest (start :: ahead)) (hs : s.Sound)
    (hc : c.world.confirmed.tick.OnCircle) (hg : ¬LacksGhost c) : s.GoesBy c start ahead := by
  obtain ⟨oldest', start', ahead', hplan, hentry⟩ := exists_plan hs hc hg
  obtain ⟨rfl, rfl⟩ := List.cons_eq_cons.mp (hplan.eq ((plan_iff hs hc hg).mpr h))
  exact hentry

/-- A driver with two points or a confirmed tick under way begins a burst, with what it goes by as
the start and the points ahead. -/
theorem GoesBy.exists_wantsEntry {start : Tick} {ahead : List Tick} (h : s.GoesBy c start ahead) :
    ∃ begins s' c', wantsEntry (s, c) = .ok (begins, s', c') ∧
      (begins = true ↔ c.world.confirmed.isPartial = true ∨ 2 ≤ (start :: ahead).length) ∧
      (begins = true → s'.start :: s'.ahead = start :: ahead) := by
  by_cases hnone : ahead = [] ∧ c.world.confirmed.isPartial = false
  · refine ⟨_, _, _, h.trans (congrArg _ (if_pos hnone)), ?_, nofun⟩
    simp [hnone]
  · have hmore := (Classical.not_and_iff_not_or_not.mp hnone).imp_right eq_true_of_ne_false
    refine ⟨_, _, _, h.trans (congrArg _ (if_neg hnone)), iff_of_true rfl ?_, fun _ => rfl⟩
    exact hmore.symm.imp_right fun hne => Nat.succ_le_succ (List.length_pos_iff.mpr hne)

/-- A frame with a plan, its points divided into those up to the target and those that
were sorted after it. -/
theorem exists_entry (hs : s.Sound) (hc : c.world.confirmed.tick.OnCircle) (hg : ¬LacksGhost c) :
    ∃ oldest start near far, s.Plan c oldest (start :: (near ++ far)) ∧
      Route c.world.confirmed.target (start :: near) ∧
      (∀ t ∈ start :: near, c.world.confirmed.tick.distance t =
        c.world.confirmed.target.distance t + c.world.confirmed.lag) ∧
      (∀ t ∈ far, IsFar c.world.confirmed t ∧ t ∈ s.basisOf c) ∧
      s.GoesBy c start (near ++ far) := by
  obtain ⟨oldest, start, ahead, hplan, hentry⟩ := exists_plan hs hc hg
  obtain ⟨near, far, hsplit, hroute, hdist, hfar⟩ := hplan.exists_split hs hc
  match near with
  | [] => simpa using hroute.last
  | t :: near =>
    obtain ⟨rfl, rfl⟩ := List.cons_eq_cons.mp hsplit
    exact ⟨oldest, start, near, far, hplan, hroute, hdist, hfar, hentry⟩

/-- The same without points on the far side. -/
theorem exists_near_entry (hs : s.Sound) (hc : c.world.confirmed.tick.OnCircle) (hg : ¬LacksGhost c)
    (hfar : s.NoneFar c) :
    ∃ oldest start near, s.Plan c oldest (start :: near) ∧
    Route c.world.confirmed.target (start :: near) ∧
      s.GoesBy c start near := by
  obtain ⟨oldest, start, near, far, hplan, hroute, -, hfars, hentry⟩ := exists_entry hs hc hg
  obtain rfl : far = [] := List.eq_nil_iff_forall_not_mem.mpr fun t ht =>
    hfar t (hfars t ht).2 (hfars t ht).1
  rw [List.append_nil] at hplan hentry
  exact ⟨oldest, start, near, hplan, hroute, hentry⟩

variable [Host H τ] {body : Scene τ φ H → Except Fault (Scene τ φ H)}

/-- The hooks of a driver that need not look for its points. -/
def guided (s : Prediction τ φ) (c : Scene τ φ H) (start : Tick) (ahead : List Tick) :
    Bracket.Hooks (Prediction τ φ × Scene τ φ H) :=
  hooks.decided (.ok (if ahead = [] ∧ c.world.confirmed.isPartial = false then
      skip .nothingToReplay (s.planned c) c
    else (true, s.begun c start ahead, c.begun start)))

/-- A query of a driver that goes by a list of points finds these points. -/
theorem GoesBy.query_eq_guided {b : Bracket (Prediction τ φ)} {start : Tick} {ahead : List Tick}
    (h : b.state.GoesBy c start ahead) :
    query b c = Bracket.queryIn .repeatWhile (b.state.guided c start ahead) b c :=
  Eq.symm (Bracket.queryIn_decided h)

/-- A run of it finds them, too. -/
theorem GoesBy.run_eq_guided {b : Bracket (Prediction τ φ)} {start : Tick} {ahead : List Tick}
    (h : b.state.GoesBy c start ahead) :
    run b c body = Bracket.runIn .repeatWhile (b.state.guided c start ahead) body b c :=
  Eq.symm (Bracket.runIn_decided h)

omit [Seconds τ] [Clock τ φ] [Host H τ] in
/-- A burst that settles is on the confirmed tick, with one invocation counted as the last one. -/
theorem settle_eq_ok_iff {y : Prediction τ φ × Scene τ φ H} :
    settle (s, c) = .ok y ↔
      c.world.time.serverTick = s.confirmed.tick ∧
        (c.world.time.serverFraction == s.confirmed.fraction) = true ∧ s.finals = 1 ∧
        ({ s with ahead := [] },
          { world := { c.world with time := restored c.world.time s.confirmed s.savedBatch }.record
              (.exited .prediction s.invocations)
            ghosts := c.ghosts.enableAll }) = y := by
  simp only [settle, checkReached, checkFinals, bind_eq_ok_iff, pure_eq_ok, Except.ok.injEq]
  constructor
  · rintro ⟨_, hreached, _, hfinals, hy⟩
    split at hreached
    · rename_i h
      split at hfinals
      · rename_i hf
        simp only [Bool.and_eq_true, beq_iff_eq] at h hf
        exact ⟨h.1, h.2, hf, hy⟩
      · cases hfinals
    · cases hreached
  · rintro ⟨htick, hfraction, hfinals, hy⟩
    exact ⟨(), by simp [htick, hfraction], (), by simp [hfinals], hy⟩

/-- A frame without a confirmed tick runs nothing. -/
theorem run_of_not_isValid (hv : c.world.confirmed.isValid = false)
    (body : Scene τ φ H → Except Fault (Scene τ φ H)) :
    run (.idle s) c body = .ok ⟨.idle s, (skip .noConfirmedTick s c).2.2, []⟩ :=
  run_eq_ok_iff.mpr (.skipped (wantsEntry_of_not_isValid hv))

/-- A frame that lacks a predicted entity runs nothing, and forgets what was predicted. -/
theorem run_of_lacksGhost (hv : c.world.confirmed.isValid = true) (hg : LacksGhost c)
    (body : Scene τ φ H → Except Fault (Scene τ φ H)) :
    run (.idle s) c body =
      .ok ⟨.idle { s with history := History.empty, lastFull := Tick.invalid },
        (skip .noPredictedGhost s c).2.2, []⟩ :=
  run_eq_ok_iff.mpr (.skipped (wantsEntry_of_lacksGhost hv hg))

/-- The invocation after a replay: one for the part of a tick, or none. -/
def trailings (s : Prediction τ φ) (c : Scene τ φ H) : List (Invocation τ φ) :=
  if s.confirmed.isPartial then [s.trailing c] else []

theorem filterMap_of_map_eq {α β : Type} {f : α → Option β} {as : List α} {bs : List β}
    (h : as.map f = bs.map some) : as.filterMap f = bs := by
  have hid := congrArg (List.filterMap id) h
  rwa [List.filterMap_map, List.filterMap_map, Function.id_comp, Function.id_comp,
    List.filterMap_some] at hid

/-- A driver without anything to replay skips the frame. -/
theorem GoesBy.run_eq {start : Tick} (h : s.GoesBy c start [])
    (hwhole : c.world.confirmed.isPartial = false) :
    run (.idle s) c body =
      .ok ⟨.idle (s.planned c), (skip .nothingToReplay (s.planned c) c).2.2, []⟩ := by
  refine run_eq_ok_iff.mpr (.skipped ?_)
  rw [GoesBy, if_pos ⟨rfl, hwhole⟩] at h
  exact h

/-- With something to replay a run is a course that settles. -/
theorem GoesBy.run_eq_ok_iff {start : Tick} {ahead : List Tick} (h : s.GoesBy c start ahead)
    (hmore : ahead ≠ [] ∨ c.world.confirmed.isPartial = true)
    {turn : Bracket.Turn (Prediction τ φ) (Scene τ φ H)} :
    run (.idle s) c body = .ok turn ↔
      ∃ r s', Course body (s.entered c start ahead, c.entered start) turn.found r ∧
        settle r = .ok (s', turn.context) ∧ turn.driver = .idle s' ∧
        turn.found.length < UInt32.size := by
  have hnot : ¬(ahead = [] ∧ c.world.confirmed.isPartial = false) := by
    rintro ⟨hnil, hwhole⟩
    rcases hmore with hne | hpart
    · exact hne hnil
    · rw [hwhole] at hpart
      cases hpart
  rw [GoesBy, if_neg hnot] at h
  rw [Prediction.run_eq_ok_iff]
  constructor
  · intro hrun
    cases hrun with
    | skipped hdeclines =>
      rw [h] at hdeclines
      cases hdeclines
    | @burst s₀ s' c₀ c' found r henters hcourse hsettles hlen =>
      rw [h] at henters
      cases henters
      exact ⟨r, s', hcourse, hsettles, rfl, hlen⟩
  · rintro ⟨r, s', hcourse, hsettles, hdriver, hlen⟩
    obtain ⟨driver, context, found⟩ := turn
    obtain rfl : driver = .idle s' := hdriver
    exact .burst h hcourse hsettles hlen

/-- The scene of the invocation after a replay, if there is one. -/
def endings (s : Prediction τ φ) (c : Scene τ φ H) : List (Scene τ φ H) :=
  if s.confirmed.isPartial then [c.opened (s.trailing c) c.ghosts.enableAll] else []

theorem filterMap_endings (s : Prediction τ φ) (c : Scene τ φ H) :
    (s.endings c).filterMap Scene.invocation? = s.trailings c := by
  unfold endings trailings
  split <;> rfl

theorem length_endings (s : Prediction τ φ) (c : Scene τ φ H) :
    (s.endings c).length = (s.trailings c).length := by
  unfold endings trailings
  split <;> rfl

/-- What a run comes to without replay points on the far side: the scenes of a replay and of what
follows it. Entities that no body touches join along the replay, and all take part after it. -/
theorem run_scenes {P : Config τ φ → Prop} (hP : Keeps P body) (hcfg : P c.world.config)
    (hs : s.Sound) (hc : c.world.confirmed.tick.OnCircle) {start : Tick} {near : List Tick}
    (hroute : Route c.world.confirmed.target (start :: near)) (hentry : s.GoesBy c start near)
    {turn : Bracket.Turn (Prediction τ φ) (Scene τ φ H)} (hrun : run (.idle s) c body = .ok turn) :
    near = [] ∧ c.world.confirmed.isPartial = false ∧
        turn = ⟨.idle (s.planned c), (skip .nothingToReplay (s.planned c) c).2.2, []⟩ ∨
      (near ≠ [] ∨ c.world.confirmed.isPartial = true) ∧
        ∃ (whole : List (Scene τ φ H)) (is : List (Invocation τ φ)) (s₁ s' : Prediction τ φ)
          (c₁ : Scene τ φ H),
          Replay P [] near (s.entered c start near) is s₁ ∧
          turn.found = whole ++ s₁.endings c₁ ∧ whole.map Scene.invocation? = is.map some ∧
          turn.driver = .idle s' ∧ s'.lastFull = s₁.lastFull ∧ s'.history = History.empty ∧
          (Spares body → whole.map Scene.ghosts = c.ghosts.disableAll.along is ∧
            c₁.ghosts.enableAll = c.ghosts.enableAll ∧
            turn.context.ghosts = c.ghosts.enableAll) := by
  by_cases hnone : near = [] ∧ c.world.confirmed.isPartial = false
  · obtain ⟨rfl, hwhole⟩ := hnone
    have heq := (hentry.run_eq hwhole).symm.trans hrun
    exact Or.inl ⟨rfl, hwhole, (Except.ok.inj heq).symm⟩
  · have hmore := (Classical.not_and_iff_not_or_not.mp hnone).imp_right eq_true_of_ne_false
    obtain ⟨r, s', hcourse, hsettles, hdriver, -⟩ := (hentry.run_eq_ok_iff hmore).mp hrun
    obtain ⟨whole, rest, is, s₁, c₁, hfound, hinv, hreplay, hrest, hghosts⟩ :=
      hcourse.exists_replay (hs.onRoute_near hc hroute) (hP.of_course hcourse hcfg)
    obtain ⟨-, -, hdone, hempty⟩ := hreplay.frame_entered
    obtain ⟨-, -, -, hy⟩ := settle_eq_ok_iff.mp hsettles
    have hbegan : (c.entered start).ghosts = c.ghosts.disableAll := rfl
    refine Or.inr ⟨hmore, whole, is, s₁, s', c₁, hreplay, ?_⟩
    rcases hrest.of_arrived hreplay.arrives.ahead hdone with
      ⟨hpart, rfl, rfl⟩ | ⟨hpart, rfl, hr, hlast⟩
    · obtain ⟨rfl, hcontext⟩ := Prod.mk.inj hy
      refine ⟨by simp [hfound, endings, hpart], hinv, hdriver, rfl, hempty, fun hspares => ?_⟩
      obtain ⟨halong, hall⟩ := hghosts hspares
      rw [hbegan, Ghosts.enableAll_disableAll] at hall
      exact ⟨halong, hall, (congrArg Scene.ghosts hcontext).symm.trans hall⟩
    · obtain ⟨rfl, hcontext⟩ := Prod.mk.inj hy
      refine ⟨by simp [hfound, endings, hpart], hinv, hdriver,
        by simp [hr, afterTrailing, counted], by simp [hr, afterTrailing, counted, hempty],
        fun hspares => ?_⟩
      obtain ⟨halong, hall⟩ := hghosts hspares
      rw [hbegan, Ghosts.enableAll_disableAll] at hall
      refine ⟨halong, hall, (congrArg Scene.ghosts hcontext).symm.trans ?_⟩
      show r.2.ghosts.enableAll = _
      rw [hlast hspares, Ghosts.enableAll_enableAll, hall]

/-- What a run comes to, told by its invocations. -/
theorem run_cases {P : Config τ φ → Prop} (hP : Keeps P body) (hcfg : P c.world.config)
    (hs : s.Sound) (hc : c.world.confirmed.tick.OnCircle) {start : Tick} {near : List Tick}
    (hroute : Route c.world.confirmed.target (start :: near)) (hentry : s.GoesBy c start near)
    {turn : Bracket.Turn (Prediction τ φ) (Scene τ φ H)} (hrun : run (.idle s) c body = .ok turn) :
    near = [] ∧ c.world.confirmed.isPartial = false ∧
        turn = ⟨.idle (s.planned c), (skip .nothingToReplay (s.planned c) c).2.2, []⟩ ∨
      (near ≠ [] ∨ c.world.confirmed.isPartial = true) ∧
        ∃ (is : List (Invocation τ φ)) (s₁ s' : Prediction τ φ) (c₁ : Scene τ φ H),
          Replay P [] near (s.entered c start near) is s₁ ∧
          turn.invocations = is ++ s₁.trailings c₁ ∧ turn.count = turn.invocations.length ∧
          turn.driver = .idle s' ∧ s'.lastFull = s₁.lastFull ∧ s'.history = History.empty := by
  refine (run_scenes hP hcfg hs hc hroute hentry hrun).imp_right ?_
  rintro ⟨hmore, whole, is, s₁, s', c₁, hreplay, hfound, hinv, hdriver, hlast, hempty, -⟩
  have hcount : whole.length = is.length := by simpa using congrArg List.length hinv
  have hinvs : turn.invocations = is ++ s₁.trailings c₁ := by
    rw [Bracket.Turn.invocations, hfound, List.filterMap_append, filterMap_of_map_eq hinv,
      filterMap_endings]
  refine ⟨hmore, is, s₁, s', c₁, hreplay, hinvs, ?_, hdriver, hlast, hempty⟩
  rw [Bracket.Turn.count, hfound, hinvs, List.length_append, List.length_append, hcount,
    length_endings]

/-! ## Frames that return -/

omit [Host H τ] in
/-- No batch ends on a confirmed tick that is under way. -/
theorem tick_ne_confirmed {P : Config τ φ → Prop} (hc : c.world.confirmed.tick.OnCircle)
    (hpart : c.world.confirmed.isPartial = true) {start : Tick} {near far ahead : List Tick}
    {is : List (Invocation τ φ)} {s₁ : Prediction τ φ}
    (h : Replay P far near (s.entered c start ahead) is s₁) :
    ∀ i ∈ is, i.tick ≠ c.world.confirmed.tick := by
  intro i hi heq
  have hlo : 0 ≤ c.world.confirmed.target.distance i.tick := (h.between i hi).2.1
  have hlag := Confirmed.distance_target hc
  have hone : c.world.confirmed.lag = 1 := by simp [Confirmed.lag, hpart]
  rw [heq, distance_comm hc (Confirmed.onCircle_target hc) (by omega)] at hlo
  omega

omit [Host H τ] in
/-- No batch of a replay counts as the last one if the confirmed tick is under way, and the last
batch does if it is completed. -/
theorem finals_of_replay {P : Config τ φ → Prop} (hc : c.world.confirmed.tick.OnCircle)
    {start : Tick} {near far ahead : List Tick} {is : List (Invocation τ φ)} {s₁ : Prediction τ φ}
    (h : Replay P far near (s.entered c start ahead) is s₁) :
    (c.world.confirmed.isPartial = true → s₁.finals = 0) ∧
      (c.world.confirmed.isPartial = false → is ≠ [] → s₁.finals = 1) := by
  constructor
  · intro hpart
    exact h.finals_eq (tick_ne_confirmed hc hpart h)
  · intro hwhole hne
    exact h.finals_eq_add_one (Confirmed.target_of_not_isPartial hwhole).symm hne

/-- With a quiet body the end of a burst is reached, and passes its checks. -/
theorem exists_end [LawfulFraction φ] (hq : Quiet body) (hb : s.confirmed.Built)
    (hahead : s.ahead = []) (hdone : s.partialDone = false) (hroom : Room 1 s c)
    (hpart : s.confirmed.isPartial = true → s.finals = 0)
    (hwhole : s.confirmed.isPartial = false →
      s.finals = 1 ∧ c.world.time.serverTick = s.confirmed.tick ∧ c.world.time.serverFraction = 1) :
    ∃ rest r y, Course body (s, c) rest r ∧ settle r = .ok y ∧ rest.length ≤ 1 := by
  by_cases hp : s.confirmed.isPartial = true
  · obtain ⟨c₂, w, hbody, hw, htime⟩ := hq.exists_close c (s.trailing c) c.ghosts.enableAll
    have hstep := (step_trailing_iff (c := c) hahead).mpr ⟨hroom.fits _, rfl, rfl⟩
    have hmore : wantsMore s = true := by simp [wantsMore, hp, hdone]
    have hends : wantsMore (s.afterTrailing c) = false := by
      simp [wantsMore, afterTrailing, Prediction.counted, hahead]
    refine ⟨_, _, _, .leg hmore hstep hbody hw (.done hends),
      settle_eq_ok_iff.mpr ⟨?_, ?_, ?_, rfl⟩, Nat.le_refl 1⟩
    · rw [htime]
      rfl
    · rw [htime]
      exact hb.fraction_beq
    · have hfinal := (contains_trailing s c).1
      simp [afterTrailing, Prediction.counted, hfinal, hpart hp]
  · have hp : s.confirmed.isPartial = false := by simpa using hp
    obtain ⟨hfinals, htick, hfraction⟩ := hwhole hp
    have hends : wantsMore s = false := by simp [wantsMore, hahead, hp]
    refine ⟨_, _, _, .done hends, settle_eq_ok_iff.mpr ⟨htick, ?_, hfinals, rfl⟩, Nat.zero_le 1⟩
    rw [hfraction, ← hb.isPartial_eq_false_iff.mp hp]
    exact hb.fraction_beq

omit [Host H τ] in
/-- A burst begins with room for as many invocations as a replay can have, and for a few more. -/
theorem room_entered (s : Prediction τ φ) (c : Scene τ φ H) (start : Tick) (ahead : List Tick)
    {n : Nat} (hn : n < UInt32.size) : Room n (s.entered c start ahead) (c.entered start) := by
  have h0 : (0 : UInt32).toNat = 0 := rfl
  constructor
  all_goals
    show (0 : UInt32).toNat + n < _
    omega

/-- With a quiet body the frame returns. -/
theorem exists_run [LawfulFraction φ] (hq : Quiet body) (hs : s.Sound)
    (hb : c.world.confirmed.Built) (hc : c.world.confirmed.tick.OnCircle) (hg : ¬LacksGhost c)
    (hfar : s.NoneFar c) :
    ∃ turn, run (.idle s) c body = .ok turn := by
  obtain ⟨-, start, near, -, hroute, hentry⟩ := exists_near_entry hs hc hg hfar
  by_cases hnone : near = [] ∧ c.world.confirmed.isPartial = false
  · obtain ⟨rfl, hwhole⟩ := hnone
    exact ⟨_, hentry.run_eq hwhole⟩
  have hmore := (Classical.not_and_iff_not_or_not.mp hnone).imp_right eq_true_of_ne_false
  have hon := hs.onRoute_near hc hroute
  have hdist := hon.target_distance_start
  have hlt := distance_lt (s.entered c start near).target (s.entered c start near).start
  have hsize : UInt32.size = 4294967296 := rfl
  obtain ⟨d, hd⟩ := Int.eq_ofNat_of_zero_le hdist
  have hroom := room_entered s c start near (n := 1 + d) (by omega)
  obtain ⟨whole, is, s₁, c₁, hreplay, hroom₁, hcount, -, hreach, hcourse⟩ :=
    hon.exists_replay hq 1 d (by omega) hroom
  obtain ⟨-, hconfirmed, hdone, -⟩ := hreplay.frame_entered
  have hahead : s₁.ahead = [] := hreplay.arrives.ahead
  have hlen := hreplay.tiles.length_le
  have hcover := hreplay.cover_eq
  obtain ⟨hpart, hwhole⟩ := finals_of_replay hc hreplay
  have hb₁ : s₁.confirmed.Built := hconfirmed ▸ hb
  obtain ⟨rest, r, y, hrest, hsettle, hshort⟩ :=
    exists_end hq hb₁ hahead hdone hroom₁ (hconfirmed ▸ hpart) fun hp => by
    rw [hconfirmed] at hp ⊢
    have hne : is ≠ [] := by
      obtain ⟨p, hp⟩ := List.exists_mem_of_ne_nil near fun hnil => hnone ⟨hnil, hp⟩
      obtain ⟨i, hi, -⟩ := hreplay.reaches p hp
      exact List.ne_nil_of_mem hi
    obtain ⟨htick, hfraction⟩ := hreach hne
    exact ⟨hwhole hp hne, htick.trans (Confirmed.target_of_not_isPartial hp), hfraction⟩
  refine ⟨⟨.idle y.1, y.2, whole ++ rest⟩,
    (hentry.run_eq_ok_iff hmore).mpr ⟨r, y.1, hcourse hrest, hsettle, rfl, ?_⟩⟩
  rw [List.length_append]
  omega

/-- With a quiet body every frame near its confirmed tick returns, whether it runs or not. -/
theorem exists_turn [LawfulFraction φ] (hq : Quiet body) (hs : s.Sound)
    (hb : c.world.confirmed.Built) (hn : s.Close c) : ∃ turn, run (.idle s) c body = .ok turn := by
  by_cases hv : c.world.confirmed.isValid = true
  · by_cases hg : LacksGhost c
    · exact ⟨_, run_of_lacksGhost hv hg body⟩
    · have hc := hb.onCircle hv
      exact exists_run hq hs hb hc hg (hn.noneFar hc)
  · exact ⟨_, run_of_not_isValid (by simpa using hv) body⟩

/-- A frame that runs has a confirmed tick, and the predicted entity that it needs. -/
theorem of_found_ne_nil {turn : Bracket.Turn (Prediction τ φ) (Scene τ φ H)}
    (hrun : run (.idle s) c body = .ok turn) (hfound : turn.found ≠ []) :
    c.world.confirmed.isValid = true ∧ ¬LacksGhost c := by
  by_cases hv : c.world.confirmed.isValid = true
  · refine ⟨hv, fun hg => hfound ?_⟩
    obtain rfl := Except.ok.inj ((run_of_lacksGhost hv hg body).symm.trans hrun)
    rfl
  · have hnone := run_of_not_isValid (s := s) (c := c) (by simpa using hv) body
    obtain rfl := Except.ok.inj (hnone.symm.trans hrun)
    exact absurd rfl hfound

/-- A burst runs exactly if there is a point ahead of the oldest, or the confirmed tick is under
way. -/
theorem found_ne_nil_iff (hs : s.Sound) (hc : c.world.confirmed.tick.OnCircle) {start : Tick}
    {near : List Tick} (hroute : Route c.world.confirmed.target (start :: near))
    (hentry : s.GoesBy c start near) {turn : Bracket.Turn (Prediction τ φ) (Scene τ φ H)}
    (hrun : run (.idle s) c body = .ok turn) :
    turn.found ≠ [] ↔ near ≠ [] ∨ c.world.confirmed.isPartial = true := by
  rcases run_cases (keeps_true body) trivial hs hc hroute hentry hrun with
    ⟨hnil, hwhole, rfl⟩ | ⟨hmore, is, s₁, _, c₁, hreplay, hinv, hcount, -, -, -⟩
  · simp [hnil, hwhole]
  · refine iff_of_true (fun hnil => ?_) hmore
    have hconfirmed := hreplay.frame_entered.2.1
    rw [hinv] at hcount
    have hnone : is ++ s₁.trailings c₁ = [] := by simpa [Bracket.Turn.count, hnil] using hcount.symm
    obtain ⟨rfl, htrailing⟩ := List.append_eq_nil_iff.mp hnone
    rcases hmore with hnear | hpart
    · obtain ⟨p, hp⟩ := List.exists_mem_of_ne_nil near hnear
      obtain ⟨i, hi, -⟩ := hreplay.reaches p hp
      simp at hi
    · simp [trailings, hconfirmed, hpart] at htrailing

/-- A burst that ran is a course from the oldest of its points, which settled. -/
theorem exists_course (hs : s.Sound) (hb : c.world.confirmed.Built) (hn : s.Close c)
    {turn : Bracket.Turn (Prediction τ φ) (Scene τ φ H)} (hrun : run (.idle s) c body = .ok turn)
    (hfound : turn.found ≠ []) :
    ∃ oldest start near r s', c.world.confirmed.tick.OnCircle ∧
      s.Plan c oldest (start :: near) ∧ Route c.world.confirmed.target (start :: near) ∧
      s.GoesBy c start near ∧ Course body (s.entered c start near, c.entered start) turn.found r ∧
      settle r = .ok (s', turn.context) := by
  obtain ⟨hv, hg⟩ := of_found_ne_nil hrun hfound
  have hc := hb.onCircle hv
  obtain ⟨oldest, start, near, hplan, hroute, hentry⟩ := exists_near_entry hs hc hg (hn.noneFar hc)
  have hmore := (found_ne_nil_iff hs hc hroute hentry hrun).mp hfound
  obtain ⟨r, s', hcourse, hsettles, -⟩ := (hentry.run_eq_ok_iff hmore).mp hrun
  exact ⟨oldest, start, near, r, s', hc, hplan, hroute, hentry, hcourse, hsettles⟩

end Prediction

end Metronome
