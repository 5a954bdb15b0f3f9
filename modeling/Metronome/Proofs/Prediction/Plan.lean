import Metronome.Proofs.Prediction.Points

/-!
# The decision of a frame

A frame without a confirmed tick, or without a predicted entity where one is needed, is skipped. Any
other frame has a `Plan`: its replay points, oldest first, with the target among them. `exists_plan`
says what the driver does with it. It begins a burst at the oldest point if there is another one or
the confirmed tick is under way, and skips otherwise. Whether a list is the plan can be decided
(`plan_iff`).

On the far side of the circle distances change their sign. A point that lies there is behind the
target by every test, and yet it is sorted after it (`isFar_of_after`).
-/

namespace Metronome

open Tick

namespace Prediction

variable {τ φ H : Type}

/-- What holds of the driver between frames: every tick it keeps is one of the circle. -/
structure Sound (s : Prediction τ φ) : Prop where
  history : s.history.OnCircle
  lastFull : s.lastFull.Regular

instance (s : Prediction τ φ) : Decidable s.Sound :=
  decidable_of_iff
    ((s.history.applied.OnCircle ∧ s.history.inputs.OnCircle) ∧ s.lastFull.Regular)
    ⟨fun h => ⟨⟨h.1.1, h.1.2⟩, h.2⟩, fun h => ⟨⟨h.history.applied, h.history.inputs⟩, h.lastFull⟩⟩

/-- The history that a frame goes by: without predicted entities nothing that was recorded
matters. -/
def heard (s : Prediction τ φ) (c : Scene τ φ H) : History :=
  if c.ghosts.isEmpty then History.empty else s.history

theorem Sound.heard {s : Prediction τ φ} (hs : s.Sound) (c : Scene τ φ H) :
    (s.heard c).OnCircle := by
  unfold Prediction.heard
  split
  · exact History.onCircle_empty
  · exact hs.history

variable [Fraction φ]

/-- The frame is skipped for want of a predicted entity. -/
def LacksGhost (c : Scene τ φ H) : Prop :=
  c.ghosts.isEmpty = true ∧ c.world.config.requireGhost = true

instance (c : Scene τ φ H) : Decidable (LacksGhost c) :=
  inferInstanceAs (Decidable (_ ∧ _))

/-- The ticks that the replay of a frame may have to start from. -/
def basisOf (s : Prediction τ φ) (c : Scene τ φ H) : Set Tick :=
  basis (s.heard c).applied s.lastFull c.world.confirmed.target

/-- Ticks in order up to a target. -/
structure Route (target : Tick) (points : List Tick) : Prop where
  onCircle : ∀ t ∈ points, t.OnCircle
  descending : points.Pairwise fun t u => target.distance u < target.distance t
  last : points.getLast? = some target

/-- The points that the driver collects for a frame, from the history that it goes by. -/
def collected (s : Prediction τ φ) (c : Scene τ φ H) : Except Fault (Option (List Tick)) := do
  let target ← targetOf c.world.confirmed
  let (applied, _) ← withTarget (s.heard c).applied s.lastFull target
  replayPoints c.world.confirmed.tick target c.world.config.history applied (s.heard c).inputs

/-- The replay points of a frame, oldest first: what the driver collects, and what it amounts to. -/
structure Plan (s : Prediction τ φ) (c : Scene τ φ H) (oldest : Tick) (points : List Tick) :
    Prop where
  collected_eq : s.collected c = .ok (some points)
  isOldest : IsOldest c.world.confirmed.tick (s.basisOf c) oldest
  mem_iff : ∀ t, t ∈ points ↔
    t ∈ pointSet c.world.confirmed c.world.config.history (s.basisOf c) (s.heard c).inputs oldest
  onCircle : ∀ t ∈ points, t.OnCircle
  descending : points.Pairwise fun t u =>
    c.world.confirmed.tick.distance u < c.world.confirmed.tick.distance t

/-- A list of the replay points of a frame, by what can be decided: it has the same members as the
points that are computed from the oldest tick to start from, and is in order. -/
def ListsPoints (s : Prediction τ φ) (c : Scene τ φ H) (oldest : Tick) (points : List Tick) :
    Prop :=
  let confirmed := c.world.confirmed
  let ticks := basisTicks (s.heard c).applied s.lastFull confirmed.target
  let members := pointTicks confirmed c.world.config.history ticks (s.heard c).inputs oldest
  (oldest ∈ ticks ∧ ∀ t ∈ ticks, confirmed.tick.distance t ≤ confirmed.tick.distance oldest) ∧
    (points ⊆ members ∧ members ⊆ points) ∧
    points.Pairwise fun t u => confirmed.tick.distance u < confirmed.tick.distance t

instance (s : Prediction τ φ) (c : Scene τ φ H) (oldest : Tick) (points : List Tick) :
    Decidable (s.ListsPoints c oldest points) :=
  inferInstanceAs (Decidable (_ ∧ _ ∧ _))

/-- The last full tick is past the history. -/
def isStale (s : Prediction τ φ) (c : Scene τ φ H) : Bool :=
  decide (c.world.config.history.toNat <
    c.world.confirmed.tick.distance (seeded s.lastFull c.world.confirmed.target))

/-- The driver after its points were collected: the history is used up, and a last full tick that is
missing or past the history gives way to the target. -/
def planned (s : Prediction τ φ) (c : Scene τ φ H) : Prediction τ φ :=
  { s with
    history := History.empty
    lastFull :=
      if s.isStale c then c.world.confirmed.target else seeded s.lastFull c.world.confirmed.target }

variable [Seconds τ] [Clock τ φ]

/-- The driver at the start of a burst. -/
def begun (s : Prediction τ φ) (c : Scene τ φ H) (start : Tick) (ahead : List Tick) :
    Prediction τ φ :=
  { s.planned c with
    start
    ahead
    confirmed := c.world.confirmed
    target := c.world.confirmed.target
    baseline := baselineOf c.world.confirmed c.world.config.step c.world.frame.elapsed
    budget :=
      if !s.lastFull.isValid || s.isStale c then c.world.config.firstBudget
        else c.world.config.repeatBudget
    partialDone := false
    invocations := 0
    finals := 0 }

end Prediction

/-- The scene at the start of a burst. -/
def Scene.begun {τ φ H : Type} [Fraction φ] (c : Scene τ φ H) (start : Tick) : Scene τ φ H :=
  let expectedTicks := UInt32.ofInt (c.world.confirmed.target.distance start) +
    if c.world.confirmed.isPartial then 1 else 0
  { world := { c.world with time := { c.world.time with expectedTicks } }.record
      (.entered .prediction c.world.confirmed.tick)
    ghosts := c.ghosts.disableAll }

namespace Prediction

variable {τ φ H : Type} [Fraction φ]

/-! ## The points of a plan -/

theorem Sound.onCircle_basisOf {s : Prediction τ φ} (hs : s.Sound) {c : Scene τ φ H}
    (hc : c.world.confirmed.tick.OnCircle) {t : Tick} (ht : t ∈ s.basisOf c) : t.OnCircle :=
  onCircle_of_mem_basis (hs.heard c).applied hs.lastFull (Confirmed.onCircle_target hc) ht

/-- There is one oldest tick to start from. -/
theorem IsOldest.unique {s : Prediction τ φ} {c : Scene τ φ H} {oldest oldest' : Tick}
    (hs : s.Sound) (hc : c.world.confirmed.tick.OnCircle)
    (h : IsOldest c.world.confirmed.tick (s.basisOf c) oldest)
    (h' : IsOldest c.world.confirmed.tick (s.basisOf c) oldest') : oldest' = oldest :=
  eq_of_distance_eq hc (hs.onCircle_basisOf hc h'.1) (hs.onCircle_basisOf hc h.1)
    (Int.le_antisymm (h.2 _ h'.1) (h'.2 _ h.1))

theorem target_mem_basisOf (s : Prediction τ φ) (c : Scene τ φ H) :
    c.world.confirmed.target ∈ s.basisOf c :=
  Or.inr (Or.inl rfl)

theorem one_le_history {ε : Type} (config : Config τ ε) : 1 ≤ config.history.toNat := by
  have h1 : (1 : UInt32).toNat = 1 := rfl
  have hmax : config.history = if config.historyTicks ≤ 1 then 1 else config.historyTicks := rfl
  rw [hmax]
  split
  · omega
  · rename_i h
    rw [UInt32.le_iff_toNat_le] at h
    omega

/-- Ticks on the far side of the circle, seen from the target or from a confirmed
tick that is under way. -/
def IsFar (c : Confirmed φ) (t : Tick) : Prop :=
  t = c.target.opposite ∨ c.isPartial = true ∧ t = c.tick.opposite

/-- What is behind the target by one test and after it by the order of the points is far. -/
theorem isFar_of_after {c : Confirmed φ} (hc : c.tick.OnCircle) {t : Tick} (ht : t.OnCircle)
    (hle : t.distance c.target ≤ 0) (hafter : c.tick.distance t < c.lag) : IsFar c t := by
  have hg := Confirmed.onCircle_target hc
  have := c.lag_nonneg
  have := c.lag_le_one
  have hlow := le_distance c.tick t
  by_cases hwrap : -1073741824 ≤ c.tick.distance t - c.lag
  · have hdist := Confirmed.target_distance hc ht hwrap
    by_cases hopp : c.target.distance t = -1073741824
    · exact Or.inl (eq_opposite hg ht hopp)
    · have hlow := le_distance c.target t
      have := distance_comm hg ht (by omega)
      omega
  · have hpartial : c.isPartial = true := by
      by_contra hp
      have : c.lag = 0 := by simp [Confirmed.lag, hp]
      omega
    exact Or.inr ⟨hpartial, eq_opposite hc ht (by omega)⟩

/-- No tick that a replay may have to start from lies on the far side. -/
def NoneFar (s : Prediction τ φ) (c : Scene τ φ H) : Prop :=
  ∀ t ∈ s.basisOf c, ¬IsFar c.world.confirmed t

/-- The applied ticks and the last full tick lie less than a quarter of the circle from
the confirmed tick. -/
structure Close (s : Prediction τ φ) (c : Scene τ φ H) : Prop where
  applied : ∀ t ∈ s.history.applied.ticks, c.world.confirmed.tick.Near t
  lastFull : s.lastFull.isValid = true → c.world.confirmed.tick.Near s.lastFull

/-- Far ticks are half the circle away, up to a tick. -/
theorem IsFar.distance_le {c : Confirmed φ} (hc : c.tick.OnCircle) {t : Tick} (h : IsFar c t) :
    c.tick.distance t ≤ -1073741823 := by
  have hg := Confirmed.onCircle_target hc
  rcases h with rfl | ⟨-, rfl⟩
  · have hopp := distance_opposite hg
    have hlag := Confirmed.distance_target hc
    have := c.lag_nonneg
    have := c.lag_le_one
    obtain ⟨k, hk⟩ := distance_triangle hc hg hg.opposite
    have := distance_lt c.tick c.target.opposite
    have := le_distance c.tick c.target.opposite
    omega
  · have hopp := distance_opposite hc
    omega

theorem Close.noneFar {s : Prediction τ φ} {c : Scene τ φ H} (h : s.Close c)
    (hc : c.world.confirmed.tick.OnCircle) : s.NoneFar c := by
  intro t ht hfar
  have hdist := hfar.distance_le hc
  have hnot : ¬c.world.confirmed.tick.Near t := by
    unfold Near
    omega
  rcases ht with ht | rfl | ⟨rfl, hv, -⟩
  · unfold heard at ht
    split at ht
    · simp [History.empty] at ht
    · exact hnot (h.applied t ht)
  · have := Confirmed.distance_target hc
    have := c.world.confirmed.lag_nonneg
    omega
  · exact hnot (h.lastFull hv)

/-- The ticks to start from lie near the confirmed tick if those that the driver keeps do. -/
theorem Close.distance_lt {s : Prediction τ φ} {c : Scene τ φ H} (h : s.Close c)
    (hc : c.world.confirmed.tick.OnCircle) {t : Tick} (ht : t ∈ s.basisOf c) :
    c.world.confirmed.tick.distance t < 536870912 := by
  have hnear : c.world.confirmed.tick.Near t → c.world.confirmed.tick.distance t < 536870912 := by
    unfold Near
    omega
  rcases ht with ht | rfl | ⟨rfl, hv, -⟩
  · unfold heard at ht
    split at ht
    · simp [History.empty] at ht
    · exact hnear (h.applied t ht)
  · have := Confirmed.distance_target hc
    have := c.world.confirmed.lag_le_one
    omega
  · exact hnear (h.lastFull hv)

/-- The points of a route are not ahead of its target. -/
theorem Route.distance_nonneg {target : Tick} {points : List Tick} (hr : Route target points)
    {t : Tick} (ht : t ∈ points) : 0 ≤ target.distance t := by
  obtain ⟨init, rfl⟩ := List.getLast?_eq_some_iff.mp hr.last
  have hself := distance_self target
  rcases List.mem_append.mp ht with ht | ht
  · have := (List.pairwise_append.mp hr.descending).2.2 t ht target (List.mem_singleton.mpr rfl)
    omega
  · obtain rfl := List.mem_singleton.mp ht
    omega

namespace Plan

variable {s : Prediction τ φ} {c : Scene τ φ H} {oldest : Tick} {points : List Tick}

/-- The plan of a frame lists the replay points in one way only. -/
theorem eq {oldest' : Tick} {points' : List Tick} (hp : s.Plan c oldest points)
    (hp' : s.Plan c oldest' points') : points = points' :=
  Option.some.inj (Except.ok.inj (hp.collected_eq.symm.trans hp'.collected_eq))

theorem target_mem (hp : s.Plan c oldest points) (hc : c.world.confirmed.tick.OnCircle) :
    c.world.confirmed.target ∈ points := by
  have hself := distance_self c.world.confirmed.target
  have hlag := Confirmed.distance_target hc
  have := c.world.confirmed.lag_le_one
  have := one_le_history c.world.config
  exact (hp.mem_iff _).mpr (Or.inl ⟨target_mem_basisOf s c, by omega, by omega⟩)

theorem lag_le_oldest (hp : s.Plan c oldest points) (hc : c.world.confirmed.tick.OnCircle) :
    c.world.confirmed.lag ≤ c.world.confirmed.tick.distance oldest := by
  rw [← Confirmed.distance_target hc]
  exact hp.isOldest.2 _ (target_mem_basisOf s c)

/-- A point of the basis is in reach by the two tests; one before an input truly lies between
target and history. -/
theorem mem_cases (hp : s.Plan c oldest points) (hs : s.Sound)
    (hc : c.world.confirmed.tick.OnCircle) {t : Tick} (ht : t ∈ points) :
    t.distance c.world.confirmed.target ≤ 0 ∧
      c.world.confirmed.tick.distance t ≤ c.world.config.history.toNat ∧
      (t ∈ s.basisOf c ∨ c.world.confirmed.lag < c.world.confirmed.tick.distance t) := by
  rcases (hp.mem_iff t).mp ht with ⟨hb, hle, hreach⟩ | ⟨n, hn, hnew, hle, rfl⟩
  · exact ⟨hle, hreach, Or.inl hb⟩
  · obtain ⟨hbehind, hlag, hreach⟩ := inputPoint_reach hc (hs.onCircle_basisOf hc hp.isOldest.1)
      (one_le_history c.world.config) (hp.lag_le_oldest hc) ((hs.heard c).inputs n hn) hnew hle
    exact ⟨by omega, by omega, Or.inr hlag⟩

/-- No point lies behind the oldest tick to start from. -/
theorem distance_le_oldest (hp : s.Plan c oldest points) (hs : s.Sound)
    (hc : c.world.confirmed.tick.OnCircle) {t : Tick} (ht : t ∈ points) :
    c.world.confirmed.tick.distance t ≤ c.world.confirmed.tick.distance oldest := by
  rcases (hp.mem_iff t).mp ht with ⟨hb, -, -⟩ | ⟨n, hn, hnew, hle, rfl⟩
  · exact hp.isOldest.2 t hb
  · obtain ⟨-, -, hreach⟩ := inputPoint_reach hc (hs.onCircle_basisOf hc hp.isOldest.1)
      (one_le_history c.world.config) (hp.lag_le_oldest hc) ((hs.heard c).inputs n hn) hnew hle
    omega

/-- The points up to the target, and what was sorted after it. -/
theorem exists_split (hp : s.Plan c oldest points) (hs : s.Sound)
    (hc : c.world.confirmed.tick.OnCircle) :
    ∃ near far, points = near ++ far ∧ Route c.world.confirmed.target near ∧
      (∀ t ∈ near, c.world.confirmed.tick.distance t =
        c.world.confirmed.target.distance t + c.world.confirmed.lag) ∧
      ∀ t ∈ far, IsFar c.world.confirmed t ∧ t ∈ s.basisOf c := by
  have hlag := Confirmed.distance_target hc
  have hlag0 := c.world.confirmed.lag_nonneg
  obtain ⟨before, after, hsplit⟩ := List.append_of_mem (hp.target_mem hc)
  have hdesc := hp.descending
  rw [hsplit, List.pairwise_append, List.pairwise_cons] at hdesc
  obtain ⟨hbefore, ⟨hafter, -⟩, hacross⟩ := hdesc
  have hmem : ∀ t ∈ before ++ [c.world.confirmed.target], t ∈ points ∧
      c.world.confirmed.lag ≤ c.world.confirmed.tick.distance t := by
    intro t ht
    rcases List.mem_append.mp ht with ht | ht
    · have := hacross t ht _ List.mem_cons_self
      exact ⟨hsplit ▸ List.mem_append_left _ ht, by omega⟩
    · obtain rfl := List.mem_singleton.mp ht
      exact ⟨hp.target_mem hc, by omega⟩
  have hdist : ∀ t ∈ before ++ [c.world.confirmed.target], c.world.confirmed.tick.distance t =
      c.world.confirmed.target.distance t + c.world.confirmed.lag := by
    intro t ht
    obtain ⟨htp, hle⟩ := hmem t ht
    have := Confirmed.target_distance hc (hp.onCircle t htp) (by omega)
    omega
  refine ⟨before ++ [c.world.confirmed.target], after, by simp [hsplit], ⟨?_, ?_, by simp⟩,
    hdist, ?_⟩
  · exact fun t ht => hp.onCircle t (hmem t ht).1
  · have hpair : (before ++ [c.world.confirmed.target]).Pairwise fun t u =>
        c.world.confirmed.tick.distance u < c.world.confirmed.tick.distance t :=
      List.pairwise_append.mpr ⟨hbefore, List.pairwise_singleton _ _, fun t ht u hu => by
        obtain rfl := List.mem_singleton.mp hu
        exact hacross t ht _ List.mem_cons_self⟩
    refine hpair.imp_of_mem fun ht hu h => ?_
    rw [hdist _ ht, hdist _ hu] at h
    omega
  · intro t ht
    have htp : t ∈ points := hsplit ▸ List.mem_append_right _ (List.mem_cons_of_mem _ ht)
    have hlt := hafter t ht
    obtain ⟨hle, -, hb | hpast⟩ := hp.mem_cases hs hc htp
    · exact ⟨isFar_of_after hc (hp.onCircle t htp) hle (by omega), hb⟩
    · omega

/-- The target is as far from the start of a burst as the confirmed tick, up to the tick that is
under way. -/
theorem distance_start {start : Tick} {ahead : List Tick} (hp : s.Plan c oldest (start :: ahead))
    (hs : s.Sound) (hc : c.world.confirmed.tick.OnCircle) : c.world.confirmed.tick.distance start =
      c.world.confirmed.target.distance start + c.world.confirmed.lag := by
  obtain ⟨near, far, hsplit, hroute, hdist, -⟩ := hp.exists_split hs hc
  refine hdist start ?_
  cases near with
  | nil => simpa using hroute.last
  | cons t near =>
    obtain ⟨rfl, -⟩ := List.cons_eq_cons.mp hsplit
    exact List.mem_cons_self

end Plan

/-! ## What the driver does with a plan -/

section Decision

variable [Seconds τ] [Clock τ φ]

theorem toNat_ofInt {x : Int} (hlo : 0 ≤ x) (hhi : x < 1073741824) :
    (UInt32.ofInt x).toNat = x.toNat := by
  rw [UInt32.ofInt, UInt32.toNat_ofNat']
  omega

theorem expectedTicks_eq_ok {target start : Tick} (hg : target.OnCircle) (hs : start.OnCircle)
    (hle : 0 ≤ target.distance start) (isPartial : Bool) :
    expectedTicks target start isPartial =
      .ok (UInt32.ofInt (target.distance start) + if isPartial then 1 else 0) := by
  have hlt := distance_lt target start
  have hword := toNat_ofInt hle hlt
  unfold expectedTicks
  rw [since_eq_ok hg.isValid hs.isValid, ok_bind]
  apply addChecked_eq_ok
  have h1 : (1 : UInt32).toNat = 1 := rfl
  have h0 : (0 : UInt32).toNat = 0 := rfl
  have hsize : UInt32.size = 4294967296 := rfl
  split <;> omega

variable {s : Prediction τ φ} {c : Scene τ φ H}

theorem wantsEntry_of_not_isValid (hv : c.world.confirmed.isValid = false) :
    wantsEntry (s, c) = .ok (skip .noConfirmedTick s c) := by
  simp [wantsEntry, hv]

theorem wantsEntry_of_lacksGhost (hv : c.world.confirmed.isValid = true) (hg : LacksGhost c) :
    wantsEntry (s, c) =
      .ok (skip .noPredictedGhost
        { s with history := History.empty, lastFull := Tick.invalid } c) := by
  simp [wantsEntry, hv, hg.1, hg.2]

/-- Apart from the frames that are skipped outright, the driver plans with the
history it goes by. -/
theorem wantsEntry_eq_plan (hv : c.world.confirmed.isValid = true) (hg : ¬LacksGhost c) :
    wantsEntry (s, c) = plan { s with history := s.heard c } c := by
  by_cases hempty : c.ghosts.isEmpty = true
  · have hneeds : c.world.config.requireGhost = false := by
      rw [← Bool.not_eq_true]
      exact fun h => hg ⟨hempty, h⟩
    simp [wantsEntry, heard, hv, hempty, hneeds]
  · simp [wantsEntry, heard, hv, hempty]

theorem begin_eq_ok (hc : c.world.confirmed.tick.OnCircle) {start : Tick} (hs : start.OnCircle)
    (hle : 0 ≤ c.world.confirmed.target.distance start) (ahead : List Tick) :
    begin (s.planned c) c c.world.confirmed.target (!s.lastFull.isValid || s.isStale c) start
      ahead = .ok (true, s.begun c start ahead, c.begun start) := by
  simp only [begin, expectedTicks_eq_ok (Confirmed.onCircle_target hc) hs hle, ok_bind]
  rfl

/-- A frame with a plan begins a burst, if there is anything to replay. -/
theorem exists_plan (hs : s.Sound) (hc : c.world.confirmed.tick.OnCircle) (hg : ¬LacksGhost c) :
    ∃ oldest start ahead, s.Plan c oldest (start :: ahead) ∧
      wantsEntry (s, c) =
        .ok (if ahead = [] ∧ c.world.confirmed.isPartial = false then
            skip .nothingToReplay (s.planned c) c
          else (true, s.begun c start ahead, c.begun start)) := by
  obtain ⟨from', oldest, points, hwith, hpoints, hold, hmem, hon, hdesc⟩ :=
    exists_replayPoints hc (one_le_history c.world.config) (hs.heard c).applied
      (hs.heard c).inputs hs.lastFull
  have hcollected : s.collected c = .ok (some points) := by
    simp only [collected, targetOf_eq_ok hc, ok_bind, hwith, hpoints]
  have hp : s.Plan c oldest points := ⟨hcollected, hold, hmem, hon, hdesc⟩
  obtain ⟨near, far, rfl, hroute, hdist, -⟩ := hp.exists_split hs hc
  have hseed := onCircle_seeded hs.lastFull (Confirmed.onCircle_target hc)
  match near with
  | [] => simpa using hroute.last
  | start :: near =>
    have hstale :
        decide (c.world.confirmed.tick.distance (seeded s.lastFull c.world.confirmed.target) >
        horizon c.world.config.history) = s.isStale c := by
      rw [isStale, decide_eq_decide, gt_iff_lt, ← Int.not_le, ← Int.not_le,
        not_congr le_horizon_iff]
    have hbegin := begin_eq_ok (s := s) hc (hroute.onCircle start List.mem_cons_self)
      (hroute.distance_nonneg List.mem_cons_self) (near ++ far)
    refine ⟨oldest, start, near ++ far, hp, ?_⟩
    rw [wantsEntry_eq_plan hc.isValid hg]
    simp only [plan, targetOf_eq_ok hc, ok_bind, hwith, hpoints,
      since_eq_ok hc.isValid hseed.isValid, hstale, List.cons_append]
    split
    · rename_i hnone
      have hboth : near ++ far = [] ∧ c.world.confirmed.isPartial = false := by simpa using hnone
      rw [if_pos hboth]
      rfl
    · rename_i hsome
      have hnot : ¬(near ++ far = [] ∧ c.world.confirmed.isPartial = false) := by simpa using hsome
      rw [if_neg hnot]
      exact hbegin

/-- The plan of a frame is the list of its points. -/
theorem plan_iff (hs : s.Sound) (hc : c.world.confirmed.tick.OnCircle) (hg : ¬LacksGhost c)
    {oldest : Tick} {points : List Tick} :
    s.Plan c oldest points ↔ s.ListsPoints c oldest points := by
  have hbasis : ∀ t, t ∈ s.basisOf c ↔
      t ∈ basisTicks (s.heard c).applied s.lastFull c.world.confirmed.target :=
    fun _ => mem_basisTicks.symm
  constructor
  · intro h
    exact ⟨⟨(hbasis _).mp h.isOldest.1, fun t ht => h.isOldest.2 t ((hbasis t).mpr ht)⟩,
      ⟨fun t ht => mem_pointTicks.mpr ((h.mem_iff t).mp ht),
        fun t ht => (h.mem_iff t).mpr (mem_pointTicks.mp ht)⟩, h.descending⟩
  · rintro ⟨⟨hmem, hmax⟩, ⟨hsub, hall⟩, hdesc⟩
    obtain ⟨oldest', start, ahead, h, -⟩ := exists_plan hs hc hg
    obtain rfl : oldest = oldest' := h.isOldest.unique hs hc
      ⟨(hbasis _).mpr hmem, fun t ht => hmax t ((hbasis t).mp ht)⟩
    obtain rfl : points = start :: ahead := TickSet.eq_of_descending hdesc h.descending fun t =>
      ⟨fun ht => (h.mem_iff t).mpr (mem_pointTicks.mp (hsub ht)),
        fun ht => hall (mem_pointTicks.mpr ((h.mem_iff t).mp ht))⟩
    exact h

end Decision

end Prediction

end Metronome
