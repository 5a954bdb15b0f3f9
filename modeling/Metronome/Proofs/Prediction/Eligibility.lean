import Metronome.Proofs.Prediction.Shape

/-!
# Who takes part in a burst

A burst stops all predicted entities, and at each start of a batch those join that are due there.
Near the confirmed tick an entity that is due at one start stays due at the later ones
(`Ghosts.Near.stayDue`), so a batch is for exactly the entities that are due where it starts
(`Replay.along_eq`). Batches start and end at every replay point. An entity whose state is of such a
point therefore joins right there, and its batches tile the ticks that it missed.
-/

namespace Metronome

open Tick

variable {τ φ H : Type}

/-- The states of the entities are of ticks less than a quarter of the circle from a tick. -/
def Ghosts.Near (g : Ghosts) (center : Tick) : Prop :=
  ∀ e ∈ g.entries, e.2.base.isValid = true → center.Near e.2.base

instance (g : Ghosts) (center : Tick) : Decidable (g.Near center) :=
  inferInstanceAs (Decidable (∀ e ∈ g.entries, _))

/-- Entities that are due at a tick are due at the newer ones up to a target, for ticks that are at
most `reach` behind it. -/
def Ghosts.StayDue (g : Ghosts) (target : Tick) (reach : Int) : Prop :=
  ∀ e ∈ g.entries, ∀ t u : Tick, t.OnCircle → u.OnCircle → target.distance t ≤ reach →
    0 ≤ target.distance u → target.distance u ≤ target.distance t →
    e.2.isDue t = true → e.2.isDue u = true

/-- A client with two predicted entities, one with state of a tick and one without state. -/
def Scene.rolledBack (base : Tick) (confirmed : Confirmed Float32) :
    Scene Float Float32 (TallyHost Float) where
  world := (Scene.client Config.standard confirmed).world
  ghosts := ⟨[(EntityId.handedOut 0, ⟨base, true⟩), (EntityId.handedOut 1, Ghost.fresh)]⟩

section Due

variable [Fraction φ] {c : Confirmed φ}

/-- A tick is so near to the target, or behind it, that the states of entities near the confirmed
tick can be compared with it. -/
def InView (c : Confirmed φ) (t : Tick) : Prop :=
  t.OnCircle ∧ 0 ≤ c.target.distance t ∧ c.target.distance t + c.lag < 536870912

/-- Ticks in view are compared by their distances from the target. -/
theorem InView.distance_eq (hc : c.tick.OnCircle) {t u : Tick} (ht : InView c t)
    (hu : InView c u) : t.distance u = c.target.distance u - c.target.distance t := by
  obtain ⟨htc, ht0, ht1⟩ := ht
  obtain ⟨huc, hu0, hu1⟩ := hu
  have := c.lag_nonneg
  exact distance_eq_sub (Confirmed.onCircle_target hc) htc huc (by omega) (by omega)

/-- A tick near the confirmed one is compared with those in view by their distances from the
target. -/
theorem exists_offset (hc : c.tick.OnCircle) {b : Tick} (hb : c.tick.Near b) :
    ∃ e : Int, ∀ t, InView c t → b.distance t = c.target.distance t - e := by
  -- a word that is no tick of the circle counts as the tick right before it
  obtain ⟨v, hv, hdist⟩ := exists_onCircle_distance b
  obtain ⟨hv0, hv1⟩ := (hdist c.tick hc).2 hb
  have := c.lag_nonneg
  have := c.lag_le_one
  have htarget := Confirmed.target_distance hc hv (by omega)
  refine ⟨c.target.distance v, fun t ⟨ht, hlo, hhi⟩ => ?_⟩
  rw [(hdist t ht).1]
  exact distance_eq_sub (Confirmed.onCircle_target hc) hv ht (by omega) (by omega)

/-- Of the ticks in view an entity is due at those at most `e` behind the target. -/
def Ghost.DueWithin (g : Ghost) (c : Confirmed φ) (e : Int) : Prop :=
  ∀ t, InView c t → (g.isDue t = true ↔ c.target.distance t ≤ e)

theorem Ghost.dueWithin_of_offset {g : Ghost} (hv : g.base.isValid = true) {e : Int}
    (he : ∀ t, InView c t → g.base.distance t = c.target.distance t - e) : g.DueWithin c e := by
  intro t ht
  rw [Ghost.isDue, hv, Bool.not_true, Bool.false_or, decide_eq_true_eq, he t ht]
  omega

theorem Ghost.dueWithin_of_not_isValid {g : Ghost} (hv : g.base.isValid = false) :
    g.DueWithin c 536870912 := by
  intro t ht
  obtain ⟨-, -, hhi⟩ := ht
  have := c.lag_nonneg
  exact iff_of_true (by simp [Ghost.isDue, hv]) (by omega)

theorem Ghosts.Near.exists_dueWithin (hc : c.tick.OnCircle) {g : Ghosts} (h : g.Near c.tick)
    {e : EntityId × Ghost} (he : e ∈ g.entries) : ∃ d, e.2.DueWithin c d := by
  cases hv : e.2.base.isValid
  · exact ⟨_, Ghost.dueWithin_of_not_isValid hv⟩
  · obtain ⟨d, hd⟩ := exists_offset hc (h e he hv)
    exact ⟨d, Ghost.dueWithin_of_offset hv hd⟩

theorem Ghosts.Near.stayDue (hc : c.tick.OnCircle) {g : Ghosts} (h : g.Near c.tick) :
    g.StayDue c.target (536870911 - c.lag) := by
  intro e he t u ht hu hreach hlo hle hdue
  obtain ⟨d, hd⟩ := h.exists_dueWithin hc he
  rw [hd t ⟨ht, by omega, by omega⟩] at hdue
  rw [hd u ⟨hu, hlo, by omega⟩]
  omega

end Due

/-- Lists that correspond, member by member. -/
theorem exists_of_map_eq {α β γ : Type} {f : α → Option β} {g : α → γ} {h : β → γ} {as : List α}
    {bs : List β} (hf : as.map f = bs.map some) (hg : as.map g = bs.map h) :
    ∀ a ∈ as, ∃ b ∈ bs, f a = some b ∧ g a = h b := by
  induction as generalizing bs with
  | nil => simp
  | cons a as ih =>
    cases bs with
    | nil => simp at hf
    | cons b bs =>
      obtain ⟨hfa, hf⟩ := List.cons_eq_cons.mp hf
      obtain ⟨hga, hg⟩ := List.cons_eq_cons.mp hg
      intro a' ha'
      rcases List.mem_cons.mp ha' with rfl | ha'
      · exact ⟨b, List.mem_cons_self, hfa, hga⟩
      · obtain ⟨b', hb', heq⟩ := ih hf hg a' ha'
        exact ⟨b', List.mem_cons_of_mem b hb', heq⟩

/-- What is picked from two lists that correspond. -/
theorem filterMap_filter_of_map_eq {α β : Type} {f : α → Option β} {p : α → Bool} {q : β → Bool}
    {as : List α} {bs : List β} (hf : as.map f = bs.map some) (hp : as.map p = bs.map q) :
    (as.filter p).filterMap f = bs.filter q := by
  induction as generalizing bs with
  | nil =>
    obtain rfl : bs = [] := by simpa using hf.symm
    rfl
  | cons a as ih =>
    cases bs with
    | nil => simp at hf
    | cons b bs =>
      obtain ⟨hfa, hf⟩ := List.cons_eq_cons.mp hf
      obtain ⟨hpa, hp⟩ := List.cons_eq_cons.mp hp
      rw [List.filter_cons, List.filter_cons, hpa]
      split
      · rw [List.filterMap_cons_some hfa, ih hf hp]
      · exact ih hf hp

namespace Prediction

/-! ## Along a replay -/

/-- Entities that were stopped before take part exactly in the batches that start where they are
due. -/
theorem Replay.along_eq [Seconds τ] [Fraction φ] {P : Config τ φ → Prop} {near far : List Tick}
    {s s' : Prediction τ φ} {is : List (Invocation τ φ)} (h : Replay P far near s is s')
    {g : Ghosts} {reach : Int} (hdue : g.StayDue s.target reach) :
    s.target.distance s.start ≤ reach →
      ∀ {g' : Ghosts}, g'.joined s.start = g.eligible s.start →
        g'.along is = is.map fun i => g.eligible i.start := by
  induction h with
  | arrived => exact fun _ _ _ => rfl
  | @hop s s' point near config flags is on legal hrest ih =>
    intro hreach g' hjoined
    have hstop := on.target_distance_stop config
    have hroute := on.hop config flags
    have hlo : 0 ≤ s.target.distance (s.start.shift (s.nextLength config point)) :=
      hroute.target_distance_start
    have hnext : (g.eligible s.start).joined (s.start.shift (s.nextLength config point)) =
        g.eligible (s.start.shift (s.nextLength config point)) :=
      Ghosts.joined_eligible fun e he => hdue e he _ _ on.onCircle_start (on.onCircle_start.shift _)
        hreach hlo (by omega)
    rw [Ghosts.along, start_hopInvocation, hjoined, List.map_cons, start_hopInvocation]
    congr 1
    refine ih hdue ?_ hnext
    show s.target.distance (s.start.shift (s.nextLength config point)) ≤ reach
    omega

variable [Seconds τ] [Fraction φ] [Clock τ φ] {s : Prediction τ φ} {c : Scene τ φ H}

/-! ## In a burst -/

/-- Who takes part in a burst, for the entities that the frame found: the scenes of its whole
batches, those of the rest, and the scene that it leaves. -/
structure Attendance (s : Prediction τ φ) (c : Scene τ φ H) (whole rest : List (Scene τ φ H))
    (after : Scene τ φ H) : Prop where
  /-- The scenes are those of a burst. -/
  shape : ∃ start, Shape c.world.confirmed start (whole.filterMap Scene.invocation?)
    (rest.filterMap Scene.invocation?)
  /-- A whole batch is for the entities that are due where it starts. -/
  eligible : ∀ c₁ ∈ whole, ∃ i, c₁.invocation? = some i ∧ c₁.ghosts = c.ghosts.eligible i.start
  /-- One whose state was applied for this burst, and is of a tick in reach, takes part in exactly
  the batches that lie after it. -/
  after_base : ∀ id ghost, c.ghosts.get? id = some ghost → ghost.base ∈ s.history.applied.ticks →
    ghost.base.distance c.world.confirmed.target ≤ 0 →
    c.world.confirmed.tick.distance ghost.base ≤ c.world.config.history.toNat →
    ∀ c₁ ∈ whole, ∃ i, c₁.invocation? = some i ∧
      (c₁.ghosts.runs id = true ↔ 0 ≤ i.start.distance ghost.base)
  /-- Those batches tile the ticks that it missed, and cover them once. -/
  tiles : ∀ id ghost, c.ghosts.get? id = some ghost → ghost.base ∈ s.history.applied.ticks →
    ghost.base.distance c.world.confirmed.target ≤ 0 →
    c.world.confirmed.tick.distance ghost.base ≤ c.world.config.history.toNat →
    Tiles ghost.base ((whole.filter fun c₁ => c₁.ghosts.runs id).filterMap Scene.invocation?)
        c.world.confirmed.target ∧
      (cover ((whole.filter fun c₁ => c₁.ghosts.runs id).filterMap Scene.invocation?) : Int) =
        c.world.confirmed.target.distance ghost.base
  /-- One without state takes part in every batch. -/
  stateless : ∀ id ghost, c.ghosts.get? id = some ghost → ghost.base.isValid = false →
    ∀ c₁ ∈ whole, c₁.ghosts.runs id = true
  /-- All take part in the part of a tick at the end. -/
  trailing : ∀ c₁ ∈ rest, (∃ i, c₁.invocation? = some i) ∧ c₁.ghosts = c.ghosts.enableAll
  /-- All take part after the burst. -/
  released : after.ghosts = c.ghosts.enableAll

section Parts

variable {P : Config τ φ → Prop} {oldest start : Tick} {near : List Tick}
  {is : List (Invocation τ φ)} {s₁ : Prediction τ φ} {whole : List (Scene τ φ H)}

omit [Seconds τ] [Clock τ φ] in
/-- The replay of a frame starts less than a quarter of the circle behind the confirmed tick. -/
theorem distance_start_lt (hs : s.Sound) (hc : c.world.confirmed.tick.OnCircle) (hn : s.Close c)
    (hplan : s.Plan c oldest (start :: near)) :
    c.world.confirmed.target.distance start + c.world.confirmed.lag < 536870912 := by
  have hold := hplan.distance_le_oldest hs hc (t := start) List.mem_cons_self
  have hlt := hn.distance_lt hc hplan.isOldest.1
  have hstart := hplan.distance_start hs hc
  omega

/-- State that was applied for the burst, of a tick in reach, is of a place where a batch begins or
ends. -/
theorem base_mem (hplan : s.Plan c oldest (start :: near))
    (h : Replay P [] near (s.entered c start near) is s₁) {id : EntityId} {ghost : Ghost}
    (hghost : c.ghosts.get? id = some ghost) (happlied : ghost.base ∈ s.history.applied.ticks)
    (hle : ghost.base.distance c.world.confirmed.target ≤ 0)
    (hreach : c.world.confirmed.tick.distance ghost.base ≤ c.world.config.history.toNat) :
    ghost.base ∈ start :: is.map Invocation.tick := by
  have hheard : s.heard c = s.history := by
    simp [heard, Ghosts.not_isEmpty_of_mem (Ghosts.mem_of_get? hghost)]
  have hpoint : ghost.base ∈ start :: near :=
    (hplan.mem_iff _).mpr (Or.inl ⟨Or.inl (hheard ▸ happlied), hle, hreach⟩)
  rcases List.mem_cons.mp hpoint with heq | hnear
  · exact heq ▸ List.mem_cons_self
  · obtain ⟨i, hi, heq⟩ := h.reaches _ hnear
    exact List.mem_cons_of_mem _ (heq ▸ List.mem_map_of_mem hi)

/-- The places where the batches of a replay begin or end are in view. -/
theorem inView_of_mem (hc : c.world.confirmed.tick.OnCircle)
    (h : Replay P [] near (s.entered c start near) is s₁)
    (hreach : c.world.confirmed.target.distance start + c.world.confirmed.lag < 536870912) :
    ∀ t ∈ start :: is.map Invocation.tick, InView c.world.confirmed t := by
  have htiles : Tiles start is c.world.confirmed.target := h.tiles
  intro t ht
  obtain ⟨htc, hlo, hhi⟩ :=
    htiles.distance_bounds (Confirmed.onCircle_target hc) h.cover_lt t ht
  exact ⟨htc, hlo, by omega⟩

/-- The batches of a replay that an entity takes part in tile the way from the first place where it
is due and a batch begins or ends. -/
theorem tiles_runs (hc : c.world.confirmed.tick.OnCircle)
    (h : Replay P [] near (s.entered c start near) is s₁)
    (hreach : c.world.confirmed.target.distance start + c.world.confirmed.lag < 536870912)
    {id : EntityId} {ghost : Ghost} (hghost : c.ghosts.get? id = some ghost) {e : Int}
    (hdue : ghost.DueWithin c.world.confirmed e) :
    ∃ x ∈ start :: is.map Invocation.tick, c.world.confirmed.target.distance x ≤ max e 0 ∧
      Tiles x (is.filter fun i => (c.ghosts.eligible i.start).runs id) c.world.confirmed.target ∧
      ∀ y ∈ start :: is.map Invocation.tick, c.world.confirmed.target.distance y ≤ max e 0 →
        c.world.confirmed.target.distance y ≤ c.world.confirmed.target.distance x := by
  have htiles : Tiles start is c.world.confirmed.target := h.tiles
  have ht := Confirmed.onCircle_target hc
  obtain ⟨x, hx, hxe, hfrom, hmax⟩ :=
    htiles.exists_from ht h.cover_lt (d := max e 0) (Int.le_max_right e 0)
  refine ⟨x, hx, hxe, ?_, hmax⟩
  rwa [List.filter_congr fun i hi => Bool.eq_iff_iff.mpr ?_]
  have hpos := htiles.distance_start_pos ht h.cover_lt i hi
  rw [Ghosts.runs_eligible hghost, decide_eq_true_iff,
    hdue _ (inView_of_mem hc h hreach _ (htiles.start_mem i hi))]
  omega

/-- An entity whose state was applied for the burst replays the ticks after it once. -/
theorem tiles_base (hs : s.Sound) (hc : c.world.confirmed.tick.OnCircle) (hn : s.Close c)
    (hplan : s.Plan c oldest (start :: near))
    (h : Replay P [] near (s.entered c start near) is s₁) {id : EntityId} {ghost : Ghost}
    (hghost : c.ghosts.get? id = some ghost) (happlied : ghost.base ∈ s.history.applied.ticks)
    (hle : ghost.base.distance c.world.confirmed.target ≤ 0)
    (hin : c.world.confirmed.tick.distance ghost.base ≤ c.world.config.history.toNat) :
    Tiles ghost.base (is.filter fun i => (c.ghosts.eligible i.start).runs id)
        c.world.confirmed.target ∧
      (cover (is.filter fun i => (c.ghosts.eligible i.start).runs id) : Int) =
        c.world.confirmed.target.distance ghost.base := by
  have ht := Confirmed.onCircle_target hc
  have hbase := hs.history.applied _ happlied
  have hreach := distance_start_lt hs hc hn hplan
  have hview := inView_of_mem hc h hreach
  have hplace := base_mem hplan h hghost happlied hle hin
  obtain ⟨-, hlo, hhi⟩ := hview _ hplace
  obtain ⟨e, he⟩ := exists_offset hc (hn.applied _ happlied)
  have hself := he _ (hview _ hplace)
  rw [distance_self] at hself
  obtain ⟨x, hx, hxe, hfrom, hmax⟩ :=
    tiles_runs hc h hreach hghost (Ghost.dueWithin_of_offset hbase.isValid he)
  -- the first place where the entity is due is the tick of its state
  obtain rfl : x = ghost.base := by
    have hbx := hmax _ hplace (by omega)
    exact eq_of_distance_eq ht (hview _ hx).1 hbase (by omega)
  exact ⟨hfrom, (hfrom.distance_eq ht (h.cover_filter_lt _)).2.symm⟩

omit [Seconds τ] [Fraction φ] [Clock τ φ] in
/-- The batches that an entity takes part in, among the scenes of a replay. -/
theorem filterMap_runs (hinv : whole.map Scene.invocation? = is.map some)
    (hghosts : whole.map Scene.ghosts = is.map fun i => c.ghosts.eligible i.start)
    (id : EntityId) :
    (whole.filter fun c₁ => c₁.ghosts.runs id).filterMap Scene.invocation? =
      is.filter fun i => (c.ghosts.eligible i.start).runs id := by
  refine filterMap_filter_of_map_eq hinv ?_
  have hruns := congrArg (List.map fun g : Ghosts => g.runs id) hghosts
  rwa [List.map_map, List.map_map] at hruns

end Parts

variable [Host H τ]

/-- What a frame comes to for entities that no body touches: those take part in a whole batch that
are due where it starts, and all do in the rest and after it. -/
theorem exists_eligible {body : Scene τ φ H → Except Fault (Scene τ φ H)} {P : Config τ φ → Prop}
    (hP : Keeps P body) (hcfg : P c.world.config) (hspares : Spares body) (hs : s.Sound)
    (hc : c.world.confirmed.tick.OnCircle) (hn : s.Close c)
    (hnear : c.ghosts.Near c.world.confirmed.tick) {oldest start : Tick} {near : List Tick}
    (hplan : s.Plan c oldest (start :: near))
    (hroute : Route c.world.confirmed.target (start :: near)) (hentry : s.GoesBy c start near)
    {turn : Bracket.Turn (Prediction τ φ) (Scene τ φ H)} (hrun : run (.idle s) c body = .ok turn) :
    ∃ (whole rest : List (Scene τ φ H)) (is : List (Invocation τ φ)) (s₁ : Prediction τ φ),
      Replay P [] near (s.entered c start near) is s₁ ∧ turn.found = whole ++ rest ∧
      whole.map Scene.invocation? = is.map some ∧
      (whole.map Scene.ghosts = is.map fun i => c.ghosts.eligible i.start) ∧
      (turn.found ≠ [] → (near ≠ [] ∨ c.world.confirmed.isPartial = true) ∧
        turn.context.ghosts = c.ghosts.enableAll ∧ ∃ c₁, rest = s₁.endings c₁ ∧
        c₁.ghosts.enableAll = c.ghosts.enableAll) := by
  rcases run_scenes hP hcfg hs hc hroute hentry hrun with
    ⟨rfl, -, rfl⟩ | ⟨hmore, whole, is, s₁, s', c₁, h, hsplit, hinv, -, -, -, hghosts⟩
  · have hon : OnRoute (s.entered c start ([] ++ [])) [] [] := hs.onRoute_entered hc hroute
    exact ⟨[], [], [], _, .arrived hon, rfl, rfl, rfl, fun hfound => absurd rfl hfound⟩
  · obtain ⟨halong, hall, hafter⟩ := hghosts hspares
    have hreach := distance_start_lt hs hc hn hplan
    refine ⟨whole, _, is, s₁, h, hsplit, hinv, ?_, fun _ => ⟨hmore, hafter, c₁, rfl, hall⟩⟩
    rw [halong]
    exact h.along_eq (hnear.stayDue hc) (by rw [entered_target, entered_start]; omega)
      (c.ghosts.joined_disableAll start)

variable [LawfulFraction φ]

/-- The entities of a burst attend it as they should. -/
theorem attendance_of_run {body : Scene τ φ H → Except Fault (Scene τ φ H)} (hspares : Spares body)
    (hs : s.Sound) (hb : c.world.confirmed.Built) (hv : c.world.confirmed.isValid = true)
    (hg : ¬LacksGhost c) (hn : s.Close c) (hnear : c.ghosts.Near c.world.confirmed.tick)
    {turn : Bracket.Turn (Prediction τ φ) (Scene τ φ H)} (hrun : run (.idle s) c body = .ok turn)
    (hfound : turn.found ≠ []) :
    ∃ whole rest, turn.found = whole ++ rest ∧ Attendance s c whole rest turn.context := by
  have hc := hb.onCircle hv
  obtain ⟨oldest, start, near, hplan, hroute, hentry⟩ :=
    exists_near_entry hs hc hg (hn.noneFar hc)
  obtain ⟨whole, rest, is, s₁, h, hsplit, hinv, heligible, hends⟩ :=
    exists_eligible (keeps_true body) trivial hspares hs hc hn hnear hplan hroute hentry hrun
  obtain ⟨hmore, hafter, c₁, rfl, hall⟩ := hends hfound
  have hview := inView_of_mem hc h (distance_start_lt hs hc hn hplan)
  have htiles : Tiles start is c.world.confirmed.target := h.tiles
  have hmem := exists_of_map_eq hinv heligible
  refine ⟨whole, s₁.endings c₁, hsplit, ⟨start, ?_⟩, fun c₂ hc₂ => ?_, ?_, ?_, ?_, ?_, hafter⟩
  · rw [filterMap_of_map_eq hinv, filterMap_endings]
    exact shape_of_replay hb hc hmore h c₁
  · obtain ⟨i, -, hi, heq⟩ := hmem c₂ hc₂
    exact ⟨i, hi, heq⟩
  · intro id ghost hghost happlied hle hin c₂ hc₂
    obtain ⟨i, hi, hinvocation, heq⟩ := hmem c₂ hc₂
    have hbase := hs.history.applied _ happlied
    have hstart := hview _ (htiles.start_mem i hi)
    have hplace := hview _ (base_mem hplan h hghost happlied hle hin)
    refine ⟨i, hinvocation, ?_⟩
    rw [heq, Ghosts.runs_eligible hghost, Ghost.isDue, hbase.isValid, Bool.not_true,
      Bool.false_or, decide_eq_true_eq, hplace.distance_eq hc hstart,
      hstart.distance_eq hc hplace]
    omega
  · intro id ghost hghost happlied hle hin
    rw [filterMap_runs hinv heligible]
    exact tiles_base hs hc hn hplan h hghost happlied hle hin
  · intro id ghost hghost hnone c₂ hc₂
    obtain ⟨i, -, -, heq⟩ := hmem c₂ hc₂
    rw [heq, Ghosts.runs_eligible hghost]
    simp [Ghost.isDue, hnone]
  · intro c₂ hc₂
    unfold endings at hc₂
    split at hc₂
    · obtain rfl := List.mem_singleton.mp hc₂
      exact ⟨⟨_, rfl⟩, hall⟩
    · simp at hc₂

/-- Rolled-back entities replay exactly the ticks that they miss: in every burst near its confirmed
tick, whatever entities there are, if no body touches them. With a quiet body every frame
returns. -/
theorem ghosts_replay_what_they_miss (body : Scene τ φ H → Except Fault (Scene τ φ H))
    (hspares : Spares body) (hs : s.Sound) (hb : c.world.confirmed.Built) (hn : s.Close c)
    (hnear : c.ghosts.Near c.world.confirmed.tick) :
    (Quiet body → ∃ turn, run (.idle s) c body = .ok turn) ∧
      ∀ turn, run (.idle s) c body = .ok turn → turn.found ≠ [] →
        ∃ whole rest, turn.found = whole ++ rest ∧ Attendance s c whole rest turn.context := by
  refine ⟨fun hq => exists_turn hq hs hb hn, fun turn hrun hfound => ?_⟩
  obtain ⟨hv, hg⟩ := of_found_ne_nil hrun hfound
  exact attendance_of_run hspares hs hb hv hg hn hnear hrun hfound

/-- Toward the middle of tick `11`, an entity with state of tick `7` replays the ticks after it up
to tick `10`, beside one without state. -/
theorem ghosts_replay_what_they_miss_client :
    ∃ turn whole rest, run (.idle (initial.recorded [ofIndex 7] [ofIndex 9]))
        (Scene.rolledBack (ofIndex 7) (Confirmed.inProgress (ofIndex 11) Fraction.half)) .ok =
          .ok turn ∧
      turn.found = whole ++ rest ∧
      Tiles (ofIndex 7) ((whole.filter fun c₁ => c₁.ghosts.runs (EntityId.handedOut 0)).filterMap
        Scene.invocation?) (ofIndex 10) ∧
      ∀ c₁ ∈ whole, c₁.ghosts.runs (EntityId.handedOut 1) = true := by
  have hs : (initial.recorded [ofIndex 7] [ofIndex 9] : Prediction Float Float32).Sound :=
    sound_initial.recorded (by simp [Regular, OnCircle.ofIndex])
      (by simp [Regular, OnCircle.ofIndex])
  have hc := OnCircle.ofIndex 11
  have hn : (initial.recorded [ofIndex 7] [ofIndex 9]).Close (Scene.rolledBack (ofIndex 7)
      (Confirmed.inProgress (ofIndex 11) Fraction.half)) := ⟨by decide, by decide⟩
  have hspares : Spares (.ok : Scene Float Float32 (TallyHost Float) → _) := by
    rintro c c' ⟨⟩
    rfl
  obtain ⟨hreturns, hattend⟩ :=
    ghosts_replay_what_they_miss .ok hspares hs (.inProgress (Or.inr hc) _) hn (by decide)
  obtain ⟨turn, hrun⟩ := hreturns fun c => ⟨c, rfl, rfl, rfl⟩
  obtain ⟨-, _, _, -, hroute, hentry⟩ := exists_near_entry hs hc (by decide) (hn.noneFar hc)
  have hfound := (found_ne_nil_iff hs hc hroute hentry hrun).mpr (Or.inr (by decide))
  obtain ⟨whole, rest, hsplit, h⟩ := hattend turn hrun hfound
  have htiles := (h.tiles (EntityId.handedOut 0) ⟨ofIndex 7, true⟩ rfl (by decide) (by decide)
    (by decide)).1
  have hstateless := h.stateless (EntityId.handedOut 1) Ghost.fresh rfl rfl
  exact ⟨turn, whole, rest, hrun, hsplit, htiles, hstateless⟩

end Prediction

end Metronome
