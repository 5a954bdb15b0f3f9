import Metronome.Proofs.Prediction.Eligibility

/-!
# Budgets and who is simulated

An entity is asked to join only where a batch starts. The ticks that a burst simulates it for begin
at the first place where it is due and a batch begins or ends, and go on to the target
(`exists_simulated`). The replay points are such places under any budgets; where batches are cut
between them depends on the budgets. So budgets do not matter to an entity unless its state lies
strictly between two replay points, and even then they matter only up to the second of the two
(`simulated_eq_of_budgets`). There they do matter (`simulated_ne_of_budgets`).
-/

namespace Metronome

open Tick

variable {τ φ H : Type}

/-- The ticks of the circle that the whole batches of a frame simulated an entity for. -/
def Bracket.Turn.simulated [Fraction φ] (t : Bracket.Turn (Prediction τ φ) (Scene τ φ H))
    (id : EntityId) : Set Tick :=
  {x | x.OnCircle ∧ ∃ c ∈ t.found, ∃ i, c.invocation? = some i ∧ ¬i.fraction < 1 ∧
    c.ghosts.runs id = true ∧ Covers i x}

/-- The scene under other budgets. -/
def Scene.withBudgets (c : Scene τ φ H) (maxRepeat maxFirst : Int32) : Scene τ φ H :=
  { c with world := { c.world with config := { c.world.config with maxRepeat, maxFirst } } }

namespace Prediction

variable [Fraction φ]

/-- The replay points of a frame. -/
def pointsOf (s : Prediction τ φ) (c : Scene τ φ H) : Set Tick :=
  {t | ∃ oldest, IsOldest c.world.confirmed.tick (s.basisOf c) oldest ∧
    t ∈ pointSet c.world.confirmed c.world.config.history (s.basisOf c) (s.heard c).inputs oldest}

/-- A tick that is not among the points, but lies between them. -/
def Between (points : Set Tick) (b : Tick) : Prop :=
  b.isValid = true ∧ b ∉ points ∧ (∃ p ∈ points, 0 < b.distance p) ∧ ∃ q ∈ points, b.distance q < 0

variable {s : Prediction τ φ} {c : Scene τ φ H} {oldest start : Tick} {points near : List Tick}

/-- The replay points, told by the oldest tick to start from. -/
theorem IsOldest.mem_pointsOf (h : IsOldest c.world.confirmed.tick (s.basisOf c) oldest)
    (hs : s.Sound) (hc : c.world.confirmed.tick.OnCircle) {t : Tick} :
    t ∈ s.pointsOf c ↔ t ∈ pointSet c.world.confirmed c.world.config.history (s.basisOf c)
      (s.heard c).inputs oldest := by
  constructor
  · rintro ⟨oldest', h', ht⟩
    rwa [← h.unique hs hc h']
  · exact fun ht => ⟨oldest, h, ht⟩

/-- The points of a plan are the replay points. -/
theorem Plan.mem_pointsOf (hplan : s.Plan c oldest points) (hs : s.Sound)
    (hc : c.world.confirmed.tick.OnCircle) {t : Tick} : t ∈ s.pointsOf c ↔ t ∈ points :=
  (hplan.isOldest.mem_pointsOf hs hc).trans (hplan.mem_iff t).symm

/-- A burst starts at the oldest replay point. -/
theorem Plan.isOldest_start (hplan : s.Plan c oldest (start :: near)) (hs : s.Sound)
    (hc : c.world.confirmed.tick.OnCircle) :
    IsOldest c.world.confirmed.tick (s.pointsOf c) start := by
  refine ⟨(hplan.mem_pointsOf hs hc).mpr List.mem_cons_self, fun t ht => ?_⟩
  rcases List.mem_cons.mp ((hplan.mem_pointsOf hs hc).mp ht) with rfl | hmem
  · exact Int.le_refl _
  · exact Int.le_of_lt ((List.pairwise_cons.mp hplan.descending).1 t hmem)

/-- The replay points are in view, and none comes before the start. -/
theorem Plan.inView (hplan : s.Plan c oldest (start :: near)) (hs : s.Sound)
    (hc : c.world.confirmed.tick.OnCircle) (hn : s.Close c)
    (hroute : Route c.world.confirmed.target (start :: near)) {p : Tick} (hp : p ∈ s.pointsOf c) :
    InView c.world.confirmed p ∧
      c.world.confirmed.target.distance p ≤ c.world.confirmed.target.distance start := by
  have hmem := (hplan.mem_pointsOf hs hc).mp hp
  have hreach := distance_start_lt hs hc hn hplan
  have hlo := hroute.distance_nonneg hmem
  have hle : c.world.confirmed.target.distance p ≤ c.world.confirmed.target.distance start := by
    rcases List.mem_cons.mp hmem with rfl | hnear
    · exact Int.le_refl _
    · exact Int.le_of_lt ((List.pairwise_cons.mp hroute.descending).1 p hnear)
  exact ⟨⟨hroute.onCircle p hmem, hlo, by omega⟩, hle⟩

variable [LawfulFraction φ] [Seconds τ] [Clock τ φ] [Host H τ]
  {body : Scene τ φ H → Except Fault (Scene τ φ H)}

/-- An entity is simulated from the first place where it is due and a batch begins or ends, up to
the target. -/
theorem exists_simulated {P : Config τ φ → Prop} (hP : Keeps P body) (hcfg : P c.world.config)
    (hspares : Spares body) (hs : s.Sound)
    (hc : c.world.confirmed.tick.OnCircle) (hn : s.Close c)
    (hnear : c.ghosts.Near c.world.confirmed.tick) (hplan : s.Plan c oldest (start :: near))
    (hroute : Route c.world.confirmed.target (start :: near)) (hentry : s.GoesBy c start near)
    {turn : Bracket.Turn (Prediction τ φ) (Scene τ φ H)} (hrun : run (.idle s) c body = .ok turn)
    {id : EntityId} {ghost : Ghost} (hghost : c.ghosts.get? id = some ghost) {e : Int}
    (hdue : ghost.DueWithin c.world.confirmed e) :
    ∃ (is : List (Invocation τ φ)) (s₁ : Prediction τ φ) (x : Tick),
      Replay P [] near (s.entered c start near) is s₁ ∧ x ∈ start :: is.map Invocation.tick ∧
      c.world.confirmed.target.distance x ≤ max e 0 ∧
      (∀ y ∈ start :: is.map Invocation.tick, c.world.confirmed.target.distance y ≤ max e 0 →
        c.world.confirmed.target.distance y ≤ c.world.confirmed.target.distance x) ∧
      ∀ t, t ∈ turn.simulated id ↔ t.OnCircle ∧ 0 ≤ c.world.confirmed.target.distance t ∧
        c.world.confirmed.target.distance t < c.world.confirmed.target.distance x := by
  obtain ⟨whole, rest, is, s₁, h, hsplit, hinv, heligible, hends⟩ :=
    exists_eligible hP hcfg hspares hs hc hn hnear hplan hroute hentry hrun
  obtain ⟨x, hx, hxe, hfrom, hmax⟩ :=
    tiles_runs hc h (distance_start_lt hs hc hn hplan) hghost hdue
  refine ⟨is, s₁, x, h, hx, hxe, hmax, fun t => and_congr_right fun ht => ?_⟩
  rw [← hfrom.exists_covers_iff (Confirmed.onCircle_target hc) (h.cover_filter_lt _) ht,
    ← filterMap_runs hinv heligible]
  simp only [List.mem_filterMap, List.mem_filter]
  constructor
  · rintro ⟨c₁, hc₁, i, hi, hwhole, hruns, hcovers⟩
    rw [hsplit] at hc₁
    rcases List.mem_append.mp hc₁ with hc₁ | hc₁
    · exact ⟨i, ⟨c₁, ⟨hc₁, hruns⟩, hi⟩, hcovers⟩
    · -- what follows the batches is for a part of a tick
      obtain ⟨-, -, c₀, rfl, -⟩ := hends (hsplit ▸ List.ne_nil_of_mem (List.mem_append_right _ hc₁))
      unfold endings at hc₁
      split at hc₁
      · rename_i hpart
        obtain rfl := List.mem_singleton.mp hc₁
        cases hi
        exact absurd (of_decide_eq_true hpart) hwhole
      · simp at hc₁
  · rintro ⟨i, ⟨c₁, ⟨hc₁, hruns⟩, hi⟩, hcovers⟩
    obtain ⟨j, hj, hij, -⟩ := exists_of_map_eq hinv heligible c₁ hc₁
    obtain rfl : i = j := Option.some.inj (hi.symm.trans hij)
    refine ⟨c₁, hsplit ▸ List.mem_append_left rest hc₁, i, hi, ?_, hruns, hcovers⟩
    rw [h.fraction_eq_one i hj]
    exact LawfulFraction.not_one_lt_one

/-! ## A client whose state lies between two points -/

/-- A driver whose last full tick is known. -/
def caughtUp (t : Tick) : Prediction Float Float32 :=
  { initial with lastFull := t }

theorem reachable_caughtUp : Reachable (TallyHost Float) (caughtUp (ofIndex 6)) := by
  have hentry : wantsEntry ((initial : Prediction Float Float32),
      Scene.rolledBack (ofIndex 7) (Confirmed.whole (ofIndex 6))) =
      .ok (skip .nothingToReplay (caughtUp (ofIndex 6))
        (Scene.rolledBack (ofIndex 7) (Confirmed.whole (ofIndex 6)))) := rfl
  have hrun : run (.idle initial) (Scene.rolledBack (ofIndex 7) (Confirmed.whole (ofIndex 6))) .ok =
      .ok _ := run_eq_ok_iff.mpr (.skipped hentry)
  exact .frame .initial (.whole (Or.inr (OnCircle.ofIndex 6))) hrun rfl

/-- A client whose tick `8` was just confirmed, with an entity whose state is of tick `7`. -/
def halfway : Scene Float Float32 (TallyHost Float) :=
  Scene.rolledBack (ofIndex 7) (Confirmed.whole (ofIndex 8))

/-- The same client, with the state of tick `6`. -/
def onPoint : Scene Float Float32 (TallyHost Float) :=
  Scene.rolledBack (ofIndex 6) (Confirmed.whole (ofIndex 8))

/-- From tick `6` to tick `8` there is no other replay point. -/
theorem plan_halfway : (caughtUp (ofIndex 6)).Plan halfway (ofIndex 6) [ofIndex 6, ofIndex 8] :=
  (plan_iff reachable_caughtUp.sound (OnCircle.ofIndex 8) (by decide)).mpr (by decide +kernel)

/-! ## Under two budgets -/

/-- How far behind the target an entity is simulated from, under some budgets, for one that is due
at most `e` ticks behind it: not further than `e`, and not nearer than a replay point that is not
further than `e`. -/
structure Extent (points : Set Tick) (target : Tick) (e m : Int) : Prop where
  nonneg : 0 ≤ m
  le_due : m ≤ max e 0
  le_start : ∃ p ∈ points, m ≤ target.distance p
  ge_point : ∀ p ∈ points, target.distance p ≤ max e 0 → target.distance p ≤ m

omit [Fraction φ] [LawfulFraction φ] [Seconds τ] [Clock τ φ] [Host H τ] in
/-- Two extents agree if the entity becomes due at a replay point, or is due at all of them. -/
theorem Extent.unique {points : Set Tick} {target : Tick} {e m m' : Int}
    (h : Extent points target e m) (h' : Extent points target e m')
    (hpoint : (∃ p ∈ points, target.distance p = max e 0) ∨
      ∀ p ∈ points, target.distance p ≤ max e 0) : m = m' := by
  rcases hpoint with ⟨p, hp, heq⟩ | hall
  · have := h.le_due
    have := h.ge_point p hp (by omega)
    have := h'.le_due
    have := h'.ge_point p hp (by omega)
    omega
  · obtain ⟨p, hp, hle⟩ := h.le_start
    obtain ⟨p', hp', hle'⟩ := h'.le_start
    have := h.ge_point p' hp' (hall p' hp')
    have := h'.ge_point p hp (hall p hp)
    omega

/-- Every run has an extent. -/
theorem exists_extent (hspares : Spares body) (hs : s.Sound)
    (hc : c.world.confirmed.tick.OnCircle) (hg : ¬LacksGhost c) (hn : s.Close c)
    (hnear : c.ghosts.Near c.world.confirmed.tick)
    {turn : Bracket.Turn (Prediction τ φ) (Scene τ φ H)} (hrun : run (.idle s) c body = .ok turn)
    {id : EntityId} {ghost : Ghost} (hghost : c.ghosts.get? id = some ghost) {e : Int}
    (hdue : ghost.DueWithin c.world.confirmed e) :
    ∃ m, Extent (s.pointsOf c) c.world.confirmed.target e m ∧
      ∀ t, t ∈ turn.simulated id ↔ t.OnCircle ∧
        0 ≤ c.world.confirmed.target.distance t ∧ c.world.confirmed.target.distance t < m := by
  obtain ⟨oldest, start, near, hplan, hroute, hentry⟩ :=
    exists_near_entry hs hc hg (hn.noneFar hc)
  obtain ⟨is, s₁, x, h, hx, hxe, hmax, hsimulated⟩ := exists_simulated (keeps_true body) trivial
    hspares hs hc hn hnear hplan hroute hentry hrun hghost hdue
  have htiles : Tiles start is c.world.confirmed.target := h.tiles
  obtain ⟨-, hlo, hhi⟩ :=
    htiles.distance_bounds (Confirmed.onCircle_target hc) h.cover_lt x hx
  refine ⟨_, ⟨hlo, hxe, ⟨start, ?_, hhi⟩, fun p hp hpe => ?_⟩, hsimulated⟩
  · exact (hplan.mem_pointsOf hs hc).mpr List.mem_cons_self
  · refine hmax p ?_ hpe
    rcases List.mem_cons.mp ((hplan.mem_pointsOf hs hc).mp hp) with rfl | hmem
    · exact List.mem_cons_self
    · obtain ⟨i, hi, rfl⟩ := h.reaches p hmem
      exact List.mem_cons_of_mem _ (List.mem_map_of_mem hi)

omit [LawfulFraction φ] [Host H τ] in
/-- The target is a replay point, and all of them are in view. -/
theorem pointsOf_inView (hs : s.Sound) (hc : c.world.confirmed.tick.OnCircle) (hg : ¬LacksGhost c)
    (hn : s.Close c) : c.world.confirmed.target ∈ s.pointsOf c ∧
      ∀ p ∈ s.pointsOf c, InView c.world.confirmed p := by
  obtain ⟨oldest, start, near, hplan, hroute, -⟩ := exists_near_entry hs hc hg (hn.noneFar hc)
  exact ⟨(hplan.mem_pointsOf hs hc).mpr (hplan.target_mem hc),
    fun p hp => (hplan.inView hs hc hn hroute hp).1⟩

omit [LawfulFraction φ] [Seconds τ] [Clock τ φ] [Host H τ] in
/-- An entity becomes due at a replay point, or is due at all of them, unless its state lies
strictly between two. -/
theorem due_of_not_between {c : Confirmed φ} {points : Set Tick} (htarget : c.target ∈ points)
    (hview : ∀ p ∈ points, InView c p) {b : Tick} {e : Int}
    (he : ∀ t, InView c t → b.distance t = c.target.distance t - e) (hv : b.isValid = true)
    (hb : ¬Between points b) :
    (∃ p ∈ points, c.target.distance p = max e 0) ∨
      ∀ p ∈ points, c.target.distance p ≤ max e 0 := by
  have hzero := distance_self c.target
  have htargete := he _ (hview _ htarget)
  by_cases hmem : b ∈ points
  · -- the state is of a replay point
    have hself := he b (hview b hmem)
    have hlo := (hview b hmem).2.1
    rw [distance_self] at hself
    exact Or.inl ⟨b, hmem, by omega⟩
  by_cases holder : ∃ p ∈ points, 0 < b.distance p
  · -- no replay point is newer, not even the target
    have hnewer : ¬b.distance c.target < 0 := fun h => hb ⟨hv, hmem, holder, c.target, htarget, h⟩
    exact Or.inl ⟨c.target, htarget, by omega⟩
  · refine Or.inr fun p hp => ?_
    have hnot : ¬0 < b.distance p := fun h => holder ⟨p, hp, h⟩
    have := he p (hview p hp)
    omega

/-- What is simulated under one budget but not under another. -/
theorem Extent.lt_of_not {points : Set Tick} {target : Tick} {e m m' : Int}
    (h : Extent points target e m) (h' : Extent points target e m') {x : Int} (hx : 0 ≤ x)
    (hm : x < m) (hm' : m' ≤ x) :
    x < e ∧ ∀ p ∈ points, target.distance p ≤ e → target.distance p ≤ x := by
  have := h.le_due
  refine ⟨by omega, fun p hp hpe => ?_⟩
  have := h'.ge_point p hp (by omega)
  omega

omit [Fraction φ] [LawfulFraction φ] [Seconds τ] [Clock τ φ] [Host H τ] in
theorem close_withBudgets (hn : s.Close c) (r f : Int32) : s.Close (c.withBudgets r f) :=
  ⟨hn.applied, hn.lastFull⟩

/-- Runs under two budgets have extents for the same replay points. -/
theorem exists_extents (hspares : Spares body) (hs : s.Sound)
    (hc : c.world.confirmed.tick.OnCircle) (hg : ¬LacksGhost c) (hn : s.Close c)
    (hnear : c.ghosts.Near c.world.confirmed.tick) {r f r' f' : Int32}
    {turn turn' : Bracket.Turn (Prediction τ φ) (Scene τ φ H)}
    (hrun : run (.idle s) (c.withBudgets r f) body = .ok turn)
    (hrun' : run (.idle s) (c.withBudgets r' f') body = .ok turn') {id : EntityId} {ghost : Ghost}
    (hghost : c.ghosts.get? id = some ghost) {e : Int}
    (hdue : ghost.DueWithin c.world.confirmed e) :
    ∃ m m', Extent (s.pointsOf c) c.world.confirmed.target e m ∧
      Extent (s.pointsOf c) c.world.confirmed.target e m' ∧
      (∀ t, t ∈ turn.simulated id ↔ t.OnCircle ∧ 0 ≤ c.world.confirmed.target.distance t ∧
        c.world.confirmed.target.distance t < m) ∧
      ∀ t, t ∈ turn'.simulated id ↔ t.OnCircle ∧ 0 ≤ c.world.confirmed.target.distance t ∧
        c.world.confirmed.target.distance t < m' := by
  obtain ⟨m, hm, hsim⟩ := exists_extent (c := c.withBudgets r f) hspares hs hc hg
    (close_withBudgets hn r f) hnear hrun hghost hdue
  obtain ⟨m', hm', hsim'⟩ := exists_extent (c := c.withBudgets r' f') hspares hs hc hg
    (close_withBudgets hn r' f') hnear hrun' hghost hdue
  exact ⟨m, m', hm, hm', hsim, hsim'⟩

omit [LawfulFraction φ] [Seconds τ] [Clock τ φ] [Host H τ] in
theorem simulated_of_found_nil {turn : Bracket.Turn (Prediction τ φ) (Scene τ φ H)}
    (h : turn.found = []) (id : EntityId) : turn.simulated id = ∅ := by
  refine Set.eq_empty_iff_forall_notMem.mpr ?_
  rintro t ⟨-, c₁, hc₁, -⟩
  simp [h] at hc₁

/-- Budgets keep what is simulated, for an entity whose state is not strictly between two replay
points. For any other entity, what only some budgets simulate lies between its state and the next
replay point. With quiet bodies the frame returns under all budgets. -/
theorem simulated_eq_of_budgets (body : Scene τ φ H → Except Fault (Scene τ φ H))
    (hspares : Spares body) (hs : s.Sound) (hb : c.world.confirmed.Built) (hn : s.Close c)
    (hnear : c.ghosts.Near c.world.confirmed.tick) :
    (Quiet body → ∀ r f, ∃ turn, run (.idle s) (c.withBudgets r f) body = .ok turn) ∧
      ∀ r f r' f' turn turn', run (.idle s) (c.withBudgets r f) body = .ok turn →
        run (.idle s) (c.withBudgets r' f') body = .ok turn' →
        ∀ id ghost, c.ghosts.get? id = some ghost →
          (¬Between (s.pointsOf c) ghost.base → turn.simulated id = turn'.simulated id) ∧
          ∀ t ∈ turn.simulated id, t ∉ turn'.simulated id → ghost.base.distance t < 0 ∧
            ∀ p ∈ s.pointsOf c, ghost.base.distance p ≤ 0 → t.distance p ≤ 0 := by
  refine ⟨fun hq r f => exists_turn (c := c.withBudgets r f) hq hs hb (close_withBudgets hn r f),
    fun r f r' f' turn turn' hrun hrun' id ghost hghost => ?_⟩
  by_cases hv : c.world.confirmed.isValid = true
  · have hc := hb.onCircle hv
    have hmem := Ghosts.mem_of_get? hghost
    have hg : ¬LacksGhost c := fun h => absurd h.1 (by simp [Ghosts.not_isEmpty_of_mem hmem])
    obtain ⟨htarget, hview⟩ := pointsOf_inView hs hc hg hn
    cases hbase : ghost.base.isValid
    · -- an entity without state is due at all replay points
      obtain ⟨m, m', hm, hm', hsim, hsim'⟩ := exists_extents hspares hs hc hg hn hnear hrun hrun'
        hghost (Ghost.dueWithin_of_not_isValid hbase)
      obtain rfl := hm.unique hm' (Or.inr fun p hp => by
        have := (hview p hp).2.2
        have := c.world.confirmed.lag_nonneg
        omega)
      exact ⟨fun _ => Set.ext fun t => (hsim t).trans (hsim' t).symm,
        fun t ht ht' => absurd ((hsim' t).mpr ((hsim t).mp ht)) ht'⟩
    · obtain ⟨e, he⟩ := exists_offset hc (hnear _ hmem hbase)
      obtain ⟨m, m', hm, hm', hsim, hsim'⟩ := exists_extents hspares hs hc hg hn hnear hrun hrun'
        hghost (Ghost.dueWithin_of_offset hbase he)
      refine ⟨fun hnot => ?_, fun t ht ht' => ?_⟩
      · obtain rfl := hm.unique hm' (due_of_not_between htarget hview he hbase hnot)
        exact Set.ext fun t => (hsim t).trans (hsim' t).symm
      · obtain ⟨htc, hlo, hlt⟩ := (hsim t).mp ht
        have hge : m' ≤ c.world.confirmed.target.distance t :=
          Int.not_lt.mp fun h => ht' ((hsim' t).mpr ⟨htc, hlo, h⟩)
        obtain ⟨hafter, hpoints⟩ := hm.lt_of_not hm' hlo hlt hge
        obtain ⟨q, hq, hle⟩ := hm.le_start
        have hreach := (hview q hq).2.2
        have htview : InView c.world.confirmed t := ⟨htc, hlo, by omega⟩
        refine ⟨by rw [he t htview]; omega, fun p hp hpb => ?_⟩
        rw [he p (hview p hp)] at hpb
        have := hpoints p hp (by omega)
        rw [htview.distance_eq hc (hview p hp)]
        omega
  · have hnone : ∀ {r f turn}, run (.idle s) (c.withBudgets r f) body = .ok turn →
        turn.simulated id = ∅ := fun {r f turn} hrun =>
      simulated_of_found_nil (Classical.byContradiction fun h => hv (of_found_ne_nil hrun h).1) id
    rw [hnone hrun, hnone hrun']
    exact ⟨fun _ => rfl, fun t ht => absurd ht (Set.notMem_empty t)⟩

/-- An entity with state of a replay point is simulated for the same ticks under two budgets. -/
theorem simulated_eq_of_budgets_client :
    ∃ turn turn', run (.idle (caughtUp (ofIndex 6))) (onPoint.withBudgets 1 1) .ok = .ok turn ∧
      run (.idle (caughtUp (ofIndex 6))) (onPoint.withBudgets 1 2) .ok = .ok turn' ∧
      turn.simulated (EntityId.handedOut 0) = turn'.simulated (EntityId.handedOut 0) := by
  have hs : (caughtUp (ofIndex 6)).Sound := reachable_caughtUp.sound
  have hb : onPoint.world.confirmed.Built := .whole (Or.inr (OnCircle.ofIndex 8))
  have hn : (caughtUp (ofIndex 6)).Close onPoint := ⟨by decide, by decide⟩
  have hspares : Spares (.ok : Scene Float Float32 (TallyHost Float) → _) := by
    rintro c c' ⟨⟩
    rfl
  obtain ⟨hreturns, hsame⟩ := simulated_eq_of_budgets .ok hspares hs hb hn (by decide)
  obtain ⟨turn, hrun⟩ := hreturns (fun c => ⟨c, rfl, rfl, rfl⟩) 1 1
  obtain ⟨turn', hrun'⟩ := hreturns (fun c => ⟨c, rfl, rfl, rfl⟩) 1 2
  have hpoint : ofIndex 6 ∈ (caughtUp (ofIndex 6)).pointsOf onPoint :=
    (plan_halfway.mem_pointsOf hs (OnCircle.ofIndex 8)).mpr List.mem_cons_self
  exact ⟨turn, turn', hrun, hrun', (hsame 1 1 1 2 turn turn' hrun hrun' (EntityId.handedOut 0)
    ⟨ofIndex 6, true⟩ rfl).1 fun h => h.2.1 hpoint⟩

/-! ## Where budgets matter -/

/-- The batches of the client under a budget for new ticks, and where its entity is simulated. -/
theorem exists_halfway (f : Int32) :
    ∃ turn is s₁ x, run (.idle (caughtUp (ofIndex 6))) (halfway.withBudgets 1 f) .ok = .ok turn ∧
      Replay (fun config => config = (halfway.withBudgets 1 f).world.config) [] [ofIndex 8]
        ((caughtUp (ofIndex 6)).entered (halfway.withBudgets 1 f) (ofIndex 6) [ofIndex 8]) is s₁ ∧
      x ∈ ofIndex 6 :: is.map Invocation.tick ∧ (ofIndex 8).distance x ≤ 1 ∧
      (∀ y ∈ ofIndex 6 :: is.map Invocation.tick, (ofIndex 8).distance y ≤ 1 →
        (ofIndex 8).distance y ≤ (ofIndex 8).distance x) ∧
      (ofIndex 8 ∈ turn.simulated (EntityId.handedOut 0) ↔ 0 < (ofIndex 8).distance x) := by
  have hs : (caughtUp (ofIndex 6)).Sound := reachable_caughtUp.sound
  have hb : (halfway.withBudgets 1 f).world.confirmed.Built := .whole (Or.inr (OnCircle.ofIndex 8))
  have hc := hb.onCircle rfl
  have hlast : (ofIndex 8).Near (ofIndex 6) := by decide
  have hn : (caughtUp (ofIndex 6)).Close (halfway.withBudgets 1 f) :=
    ⟨fun t ht => absurd ht List.not_mem_nil, fun _ => hlast⟩
  have hnear : halfway.ghosts.Near halfway.world.confirmed.tick := by decide
  have hg : ¬LacksGhost (halfway.withBudgets 1 f) := fun h => Bool.noConfusion h.1
  have hspares : Spares (.ok : Scene Float Float32 (TallyHost Float) → _) := by
    rintro c c' ⟨⟩
    rfl
  have hkeeps : Keeps (fun config => config = (halfway.withBudgets 1 f).world.config)
      (.ok : Scene Float Float32 (TallyHost Float) → _) := by
    rintro c c' ⟨⟩
    exact id
  obtain ⟨turn, hrun⟩ := exists_turn (fun c => ⟨c, rfl, rfl, rfl⟩) hs hb hn
  obtain ⟨oldest, start, near, hplan, hroute, hentry⟩ := exists_near_entry hs hc hg (hn.noneFar hc)
  have hplan' : (caughtUp (ofIndex 6)).Plan (halfway.withBudgets 1 f) (ofIndex 6)
      [ofIndex 6, ofIndex 8] :=
    ⟨plan_halfway.collected_eq, plan_halfway.isOldest, plan_halfway.mem_iff, plan_halfway.onCircle,
      plan_halfway.descending⟩
  obtain ⟨rfl, rfl⟩ := List.cons_eq_cons.mp (hplan.eq hplan')
  have htarget : (halfway.withBudgets 1 f).world.confirmed.target = ofIndex 8 :=
    (by decide : halfway.world.confirmed.target = ofIndex 8)
  -- the entity is due at most one tick behind the target
  obtain ⟨e, he⟩ := exists_offset hc (b := ofIndex 7) (by decide : (ofIndex 8).Near (ofIndex 7))
  have hview : InView halfway.world.confirmed (ofIndex 7) :=
    ⟨OnCircle.ofIndex 7, by decide, by decide⟩
  have hseven := he (ofIndex 7) hview
  have hghost : halfway.ghosts.get? (EntityId.handedOut 0) = some ⟨ofIndex 7, true⟩ := rfl
  obtain ⟨is, s₁, x, h, hx, hxe, hmax, hsim⟩ := exists_simulated hkeeps rfl hspares hs hc hn hnear
    hplan hroute hentry hrun hghost (Ghost.dueWithin_of_offset rfl he)
  rw [htarget] at hseven hxe hmax hsim
  obtain rfl : e = 1 := by
    have hself := distance_self (ofIndex 7)
    have hbehind : (ofIndex 8).distance (ofIndex 7) = 1 := by decide
    omega
  refine ⟨turn, is, s₁, x, hrun, h, hx, hxe, hmax, (hsim (ofIndex 8)).trans ?_⟩
  rw [distance_self]
  exact ⟨fun h => h.2.2, fun h => ⟨OnCircle.ofIndex 8, Int.le_refl 0, h⟩⟩

/-- With a budget of one tick the entity joins at tick `7` and is simulated for tick `8`; with a
budget of two ticks one batch runs over tick `7`, and it is not. -/
theorem simulated_ne_of_budgets :
    Reachable (TallyHost Float) (caughtUp (ofIndex 6)) ∧ halfway.world.confirmed.Built ∧
      (caughtUp (ofIndex 6)).Close halfway ∧ halfway.ghosts.Near halfway.world.confirmed.tick ∧
      ∃ turn turn', run (.idle (caughtUp (ofIndex 6))) (halfway.withBudgets 1 1) .ok = .ok turn ∧
        run (.idle (caughtUp (ofIndex 6))) (halfway.withBudgets 1 2) .ok = .ok turn' ∧
        ofIndex 8 ∈ turn.simulated (EntityId.handedOut 0) ∧
        ofIndex 8 ∉ turn'.simulated (EntityId.handedOut 0) := by
  refine ⟨reachable_caughtUp, .whole (Or.inr (OnCircle.ofIndex 8)), ⟨by decide, by decide⟩,
    by decide, ?_⟩
  obtain ⟨turn, is, s₁, x, hrun, h, -, -, hmax, hsim⟩ := exists_halfway 1
  obtain ⟨turn', is', s₁', x', hrun', h', hx', hxe', -, hsim'⟩ := exists_halfway 2
  refine ⟨turn, turn', hrun, hrun', hsim.mpr ?_, fun ht => absurd (hsim'.mp ht) ?_⟩
  · -- the first batch ends on tick `7`
    cases h with
    | hop on legal rest =>
      subst legal
      have hseven := hmax (ofIndex 7) (List.mem_cons_of_mem _ List.mem_cons_self) (by decide)
      have : (ofIndex 8).distance (ofIndex 7) = 1 := by decide
      omega
  · -- the only batch ends on tick `8`
    cases h' with
    | hop on legal rest =>
      subst legal
      cases rest with
      | arrived =>
        rcases List.mem_cons.mp hx' with rfl | hx'
        · exact absurd hxe' (by decide)
        · obtain rfl : x' = ofIndex 8 := List.mem_singleton.mp hx'
          decide

end Prediction

end Metronome
