import Metronome.Proofs.StepPlan
import Metronome.Proofs.World
import Metronome.Proofs.Prediction.Course
import Metronome.Proofs.Prediction.Plan

/-!
# Replays

As long as the replay points lie in order up to the target, every leg is a hop toward the next one.
`Replay` is the run of these hops, with `OnRoute` holding of the driver before each: the start and
the points ahead of it are a route to the target. A hop keeps the driver on its route
(`OnRoute.hop`), so a course from a driver on its route begins with a replay
(`Course.exists_replay`). If no body touches the predicted entities, each body finds them as they
are after those joined that are due where its batch starts (`Ghosts.along`).
-/

namespace Metronome

open Tick

variable {τ φ H : Type}

/-- Where an invocation starts. -/
def Invocation.start (i : Invocation τ φ) : Tick :=
  i.tick.shiftBack i.batch

/-- The entities as the bodies of batches find them in turn, if no body touches them. -/
def Ghosts.along (g : Ghosts) : List (Invocation τ φ) → List Ghosts
  | [] => []
  | i :: is => g.joined i.start :: (g.joined i.start).along is

namespace Prediction

/-- The driver is on its way to the target: over the near points, with the far
ones left for later. -/
structure OnRoute (s : Prediction τ φ) (near far : List Tick) : Prop where
  ahead : s.ahead = near ++ far
  route : Route s.target (s.start :: near)
  lastFull : s.lastFull.OnCircle
  budget : 1 ≤ s.budget.toNat

/-- The near points that a hop toward the first of them leaves ahead. -/
def remaining (s : Prediction τ φ) (config : Config τ φ) (point : Tick) (near : List Tick) :
    List Tick :=
  if ((s.nextLength config point).toNat : Int) < point.distance s.start then point :: near else near

namespace OnRoute

variable {s : Prediction τ φ} {point : Tick} {near far : List Tick}

theorem onCircle_start (h : OnRoute s near far) : s.start.OnCircle :=
  h.route.onCircle _ List.mem_cons_self

theorem onCircle_target (h : OnRoute s near far) : s.target.OnCircle :=
  h.route.onCircle _ (List.mem_of_getLast? h.route.last)

theorem start_eq_target (h : OnRoute s [] far) : s.start = s.target := by
  simpa using h.route.last

theorem onCircle_point (h : OnRoute s (point :: near) far) : point.OnCircle :=
  h.route.onCircle _ (List.mem_cons_of_mem _ List.mem_cons_self)

theorem target_distance_start (h : OnRoute s near far) : 0 ≤ s.target.distance s.start :=
  h.route.distance_nonneg List.mem_cons_self

/-- The next point is ahead of the start, by the difference of their distances from the target. -/
theorem point_distance (h : OnRoute s (point :: near) far) :
    point.distance s.start = s.target.distance s.start - s.target.distance point ∧
      0 ≤ s.target.distance point ∧ 0 < point.distance s.start := by
  have hpoint : 0 ≤ s.target.distance point :=
    h.route.distance_nonneg (List.mem_cons_of_mem _ List.mem_cons_self)
  have hlt := distance_lt s.target s.start
  have hdesc := (List.pairwise_cons.mp h.route.descending).1 point List.mem_cons_self
  have heq :=
    distance_eq_sub h.onCircle_target h.onCircle_point h.onCircle_start (by omega) (by omega)
  exact ⟨heq, hpoint, by omega⟩

theorem one_le_purse (h : OnRoute s near far) (config : Config τ φ) :
    1 ≤ (s.purse config).toNat := by
  unfold purse
  split
  · exact one_le_atLeastOne _
  · exact h.budget

/-- A batch has at least one tick and does not pass the point. -/
theorem nextLength_bounds (h : OnRoute s (point :: near) far) (config : Config τ φ) :
    1 ≤ (s.nextLength config point).toNat ∧
      ((s.nextLength config point).toNat : Int) ≤ point.distance s.start := by
  have hpos := h.point_distance.2.2
  have hlength := toNat_nextLength config hpos
  have hgap := gap_pos s.lastFull hpos
  have hle := gap_le s.start point s.lastFull
  have hpurse := h.one_le_purse config
  omega

/-- A hop comes nearer to the target by the length of its batch. -/
theorem target_distance_stop (h : OnRoute s (point :: near) far) (config : Config τ φ) :
    s.target.distance (s.start.shift (s.nextLength config point)) =
      s.target.distance s.start - (s.nextLength config point).toNat := by
  obtain ⟨heq, hpoint, -⟩ := h.point_distance
  obtain ⟨-, hle⟩ := h.nextLength_bounds config
  exact distance_shift_right h.onCircle_target h.onCircle_start (by omega)

theorem stop_eq_point (h : OnRoute s (point :: near) far) {config : Config τ φ}
    (hend : ¬((s.nextLength config point).toNat : Int) < point.distance s.start) :
    s.start.shift (s.nextLength config point) = point := by
  obtain ⟨-, hle⟩ := h.nextLength_bounds config
  exact (eq_shift_of_distance h.onCircle_point h.onCircle_start (by omega)).symm

/-- A hop stays on the route. -/
theorem route_stop (h : OnRoute s (point :: near) far) (config : Config τ φ) :
    Route s.target
      (s.start.shift (s.nextLength config point) :: s.remaining config point near) := by
  have hstop := h.target_distance_stop config
  obtain ⟨heq, -, -⟩ := h.point_distance
  obtain ⟨hon, hdesc, hlast⟩ := h.route
  have htail := (List.pairwise_cons.mp hdesc).2
  unfold remaining
  split
  · refine ⟨?_, ?_, by simpa using hlast⟩
    · intro t ht
      rcases List.mem_cons.mp ht with rfl | ht
      · exact h.onCircle_start.shift _
      · exact hon t (List.mem_cons_of_mem _ ht)
    · refine List.pairwise_cons.mpr ⟨fun t ht => ?_, htail⟩
      have hpoint : s.target.distance t ≤ s.target.distance point := by
        rcases List.mem_cons.mp ht with rfl | ht
        · exact Int.le_refl _
        · exact Int.le_of_lt ((List.pairwise_cons.mp htail).1 t ht)
      omega
  · rename_i hend
    rw [h.stop_eq_point hend]
    exact ⟨fun t ht => hon t (List.mem_cons_of_mem _ ht), htail, by simpa using hlast⟩

end OnRoute

variable [Seconds τ] [Fraction φ]

/-- The invocation of a hop toward a point. -/
def hopInvocation (s : Prediction τ φ) (config : Config τ φ) (flags : StepFlags) (point : Tick) :
    Invocation τ φ :=
  (s.hopLeg config flags point).invocation (s.invocations == 0)

/-- The driver after a hop toward a point. -/
def afterHop (s : Prediction τ φ) (config : Config τ φ) (flags : StepFlags) (point : Tick)
    (rest : List Tick) : Prediction τ φ :=
  (s.hopped config point rest).counted (s.hopInvocation config flags point)

/-- The flags of a hop. -/
theorem contains_hop (s : Prediction τ φ) (config : Config τ φ) (flags : StepFlags) (point : Tick) :
    (s.hopInvocation config flags point).flags.contains StepFlags.firstTime =
        decide (0 < (s.start.shift (s.nextLength config point)).distance s.lastFull) ∧
      (s.hopInvocation config flags point).flags.contains StepFlags.final =
        ((s.hopInvocation config flags point).tick == s.confirmed.tick) ∧
      (s.hopInvocation config flags point).flags.contains StepFlags.finalFull =
        ((s.hopInvocation config flags point).tick == s.target) ∧
      (s.hopInvocation config flags point).flags.contains StepFlags.first =
        (s.invocations == 0) := by
  unfold hopInvocation
  rw [contains_invocation _ _ (by decide), contains_invocation _ _ (by decide),
    contains_invocation _ _ (by decide), contains_first_invocation]
  obtain ⟨hnew, hfinal, hfull⟩ := contains_batchFlags flags _ _ _ _
  exact ⟨hnew, hfinal, hfull, rfl⟩

/-- A hop keeps the driver on its route. -/
theorem OnRoute.hop {s : Prediction τ φ} {point : Tick} {near far : List Tick}
    (h : OnRoute s (point :: near) far) (config : Config τ φ) (flags : StepFlags) :
    OnRoute (s.afterHop config flags point (near ++ far)) (s.remaining config point near) far where
  ahead := by
    simp only [afterHop, counted, hopped, remaining]
    split <;> rfl
  route := h.route_stop config
  lastFull := by
    simp only [afterHop, counted, hopped]
    split
    · exact h.onCircle_start.shift _
    · exact h.lastFull
  budget := h.one_le_purse config

/-- The hops of a driver over its near points, each under settings with a property `P`. -/
inductive Replay (P : Config τ φ → Prop) (far : List Tick) :
    List Tick → Prediction τ φ → List (Invocation τ φ) → Prediction τ φ → Prop
  /-- No near point is left. -/
  | arrived {s : Prediction τ φ} (on : OnRoute s [] far) : Replay P far [] s [] s
  /-- A hop toward the first of the near points. -/
  | hop {s s' : Prediction τ φ} {point : Tick} {near : List Tick} {config : Config τ φ}
      {flags : StepFlags}
      {is : List (Invocation τ φ)} (on : OnRoute s (point :: near) far) (legal : P config)
      (rest : Replay P far (s.remaining config point near)
        (s.afterHop config flags point (near ++ far)) is s') :
      Replay P far (point :: near) s (s.hopInvocation config flags point :: is) s'

variable [Clock τ φ] [Host H τ]

/-- On its route the driver takes a step exactly if its counters have room, and the step is a
hop. -/
theorem OnRoute.step_eq_ok_iff {s s' : Prediction τ φ} {c c' : Scene τ φ H} {point : Tick}
    {near far : List Tick} (h : OnRoute s (point :: near) far) :
    step (s, c) = .ok (s', c') ↔
      Fits s c (s.hopInvocation c.world.config c.world.time.flags point) ∧
        s' = s.afterHop c.world.config c.world.time.flags point (near ++ far) ∧
        c' = c.opened (s.hopInvocation c.world.config c.world.time.flags point)
          (c.ghosts.joined s.start) :=
  Prediction.step_eq_ok_iff
    (nextLeg_eq_hop h.ahead h.onCircle_start h.onCircle_target h.onCircle_point h.lastFull
    h.point_distance.2.2)

omit [Seconds τ] [Clock τ φ] in
theorem OnRoute.wantsMore {s : Prediction τ φ} {point : Tick} {near far : List Tick}
    (h : OnRoute s (point :: near) far) : wantsMore s = true := by
  simp [Prediction.wantsMore, h.ahead]

/-- The settings keep a property while bodies run. -/
def Keeps (P : Config τ φ → Prop) (body : Scene τ φ H → Except Fault (Scene τ φ H)) : Prop :=
  ∀ ⦃c c' : Scene τ φ H⦄, body c = .ok c' → P c.world.config → P c'.world.config

omit [Seconds τ] [Fraction φ] [Clock τ φ] [Host H τ] in
theorem keeps_true (body : Scene τ φ H → Except Fault (Scene τ φ H)) : Keeps (fun _ => True) body :=
  fun _ _ _ _ => trivial

/-- Bodies leave the predicted entities as they find them. -/
def Spares (body : Scene τ φ H → Except Fault (Scene τ φ H)) : Prop :=
  ∀ ⦃c c' : Scene τ φ H⦄, body c = .ok c' → c'.ghosts = c.ghosts

omit [Clock τ φ] [Host H τ] in
/-- A hop starts where the driver stands. -/
theorem start_hopInvocation (s : Prediction τ φ) (config : Config τ φ) (flags : StepFlags)
    (point : Tick) : (s.hopInvocation config flags point).start = s.start :=
  shiftBack_shift s.start _

/-- The settings that the bodies of a course find keep a property that every body keeps. -/
theorem Keeps.of_course {body : Scene τ φ H → Except Fault (Scene τ φ H)} {P : Config τ φ → Prop}
    (hP : Keeps P body) {x r : Prediction τ φ × Scene τ φ H} {found : List (Scene τ φ H)}
    (h : Course body x found r) (hcfg : P x.2.world.config) : ∀ y ∈ found, P y.world.config := by
  induction h with
  | done => simp
  | @leg s s₁ c c₁ c₂ w found r _ hstep hbody hw _ ih =>
    have hfound : P c₁.world.config := by
      obtain ⟨_, _, _, hleg⟩ := exists_nextLeg hstep
      obtain ⟨-, -, rfl⟩ := (Prediction.step_eq_ok_iff hleg).mp hstep
      exact hcfg
    have hnext : P w.config := by
      rw [World.exitScope_frame hw]
      exact hP hbody hfound
    exact List.forall_mem_cons.mpr ⟨hfound, ih hnext⟩

/-- A course of a driver on its route begins with a replay. -/
theorem Course.exists_replay {body : Scene τ φ H → Except Fault (Scene τ φ H)}
    {P : Config τ φ → Prop} {x r : Prediction τ φ × Scene τ φ H}
    {found : List (Scene τ φ H)} (h : Course body x found r) :
    ∀ {near far : List Tick}, OnRoute x.1 near far → (∀ y ∈ found, P y.world.config) →
      ∃ whole rest is s₁ c₁, found = whole ++ rest ∧ whole.map Scene.invocation? = is.map some ∧
        Replay P far near x.1 is s₁ ∧ Course body (s₁, c₁) rest r ∧
        (Spares body → whole.map Scene.ghosts = x.2.ghosts.along is ∧
          c₁.ghosts.enableAll = x.2.ghosts.enableAll) := by
  induction h with
  | @done s c hends =>
    intro near far hon _
    cases near with
    | nil => exact ⟨[], [], [], s, c, rfl, rfl, .arrived hon, .done hends, fun _ => ⟨rfl, rfl⟩⟩
    | cons point near => exact absurd hon.wantsMore (by simp [hends])
  | @leg s s₁ c c₁ c₂ w found r hmore hstep hbody hw hrest ih =>
    intro near far hon hP
    cases near with
    | nil =>
      exact ⟨[], c₁ :: found, [], s, c, rfl, rfl, .arrived hon,
        .leg hmore hstep hbody hw hrest, fun _ => ⟨rfl, rfl⟩⟩
    | cons point near =>
      obtain ⟨-, rfl, rfl⟩ := hon.step_eq_ok_iff.mp hstep
      obtain ⟨hhead, hP⟩ := List.forall_mem_cons.mp hP
      have hcfg : P c.world.config := hhead
      obtain ⟨whole, rest, is, s', c', rfl, hinv, hreplay, hcourse, hghosts⟩ :=
        ih (hon.hop _ _) hP
      refine ⟨_ :: whole, rest, _ :: is, s', c', rfl, by simp [hinv], .hop hon hcfg hreplay,
        hcourse, fun hspares => ?_⟩
      obtain ⟨halong, hall⟩ := hghosts hspares
      have hfound : c₂.ghosts = c.ghosts.joined s.start := hspares hbody
      simp only [hfound] at halong hall
      rw [Ghosts.along, start_hopInvocation, List.map_cons, halong]
      exact ⟨rfl, hall.trans (c.ghosts.enableAll_joined _)⟩

/-! ## The part of a tick -/

/-- The invocation for the part of a tick at the end. -/
def trailing (s : Prediction τ φ) (c : Scene τ φ H) : Invocation τ φ :=
  (partialLeg s c).2.2.invocation (s.invocations == 0)

/-- The driver after the invocation for the part of a tick. -/
def afterTrailing (s : Prediction τ φ) (c : Scene τ φ H) : Prediction τ φ :=
  { s with partialDone := true }.counted (s.trailing c)

theorem step_trailing_iff {s s' : Prediction τ φ} {c c' : Scene τ φ H} (hahead : s.ahead = []) :
    step (s, c) = .ok (s', c') ↔
      Fits s c (s.trailing c) ∧ s' = s.afterTrailing c ∧
      c' = c.opened (s.trailing c) c.ghosts.enableAll := by
  have hleg : nextLeg s c =
      .ok ({ s with partialDone := true }, c.ghosts.enableAll, (partialLeg s c).2.2) := by
    unfold nextLeg
    split
    · simp_all
    · rfl
  exact Prediction.step_eq_ok_iff hleg

/-- With no points ahead a course is the invocation for the part of a tick, if the
confirmed tick is under way. -/
theorem Course.of_arrived {body : Scene τ φ H → Except Fault (Scene τ φ H)} {s : Prediction τ φ}
    {c : Scene τ φ H} {rest : List (Scene τ φ H)} {r : Prediction τ φ × Scene τ φ H}
    (h : Course body (s, c) rest r) (hahead : s.ahead = []) (hdone : s.partialDone = false) :
    s.confirmed.isPartial = false ∧ rest = [] ∧ r = (s, c) ∨
      s.confirmed.isPartial = true ∧ rest = [c.opened (s.trailing c) c.ghosts.enableAll] ∧
        r.1 = s.afterTrailing c ∧ (Spares body → r.2.ghosts = c.ghosts.enableAll) := by
  cases h with
  | done hends =>
      exact Or.inl ⟨by simpa [Prediction.wantsMore, hahead, hdone] using hends, rfl, rfl⟩
  | leg hmore hstep hbody _ hrest =>
    obtain ⟨-, rfl, rfl⟩ := (step_trailing_iff hahead).mp hstep
    refine Or.inr ⟨by simpa [Prediction.wantsMore, hahead, hdone] using hmore, ?_⟩
    cases hrest with
    | done => exact ⟨rfl, rfl, fun hspares => hspares hbody⟩
    | leg hmore => simp [Prediction.wantsMore, afterTrailing, counted, hahead] at hmore

omit [Fraction φ] [Host H τ] in
/-- The invocation for the part of a tick is flagged as the last one, but not as a full one. -/
theorem contains_trailing (s : Prediction τ φ) (c : Scene τ φ H) :
    (s.trailing c).flags.contains StepFlags.final = true ∧
      (s.trailing c).flags.contains StepFlags.finalFull = false ∧
      (s.trailing c).flags.contains StepFlags.firstTime = false ∧
      (s.trailing c).flags.contains StepFlags.first = (s.invocations == 0) := by
  unfold trailing
  rw [contains_invocation _ _ (by decide), contains_invocation _ _ (by decide),
    contains_invocation _ _ (by decide), contains_first_invocation]
  obtain ⟨hfinal, hfull, hnew⟩ := contains_partialFlags c.world.time.flags
  exact ⟨hfinal, hfull, hnew, rfl⟩

end Prediction

end Metronome
