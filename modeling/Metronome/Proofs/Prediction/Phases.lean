import Metronome.Proofs.Prediction.FirstTime
import Metronome.Proofs.Prediction.Shape

/-!
# The phases of a burst

A burst goes toward its replay points in batches, each cut to a budget. It begins with the budget
for ticks that are repeated, unless everything is predicted anew, and changes to the budget for new
ticks where it has caught up with the last full tick. It cannot miss that place: a last full tick
that is behind the target is a replay point, and one that is not is ahead of every batch.

`Replay.phases` is the induction over the batches before the change, and `Replay.all_new` the one
over the batches after it. Both go by distances from the target, which order the ticks of a burst
like integers.
-/

namespace Metronome

open Tick

variable {τ φ H : Type}

/-- The first of some points after a tick. -/
structure IsNext (points : List Tick) (t p : Tick) : Prop where
  mem : p ∈ points
  newer : 0 < p.distance t
  least : ∀ q ∈ points, 0 < q.distance t → p.distance t ≤ q.distance t

/-- A batch toward the next point, cut to a budget, and flagged as new or not. -/
structure InPhase (points : List Tick) (budget : UInt32) (new : Bool) (i : Invocation τ φ) :
    Prop where
  batch : ∃ p, IsNext points i.start p ∧
    (i.batch.toNat : Int) = min (p.distance i.start) budget.toNat
  flag : i.flags.contains StepFlags.firstTime = new

namespace Prediction

variable {s s' : Prediction τ φ} {point : Tick} {near far points : List Tick}

/-- The driver has passed those of the points that are not near. -/
structure Passes (s : Prediction τ φ) (points near : List Tick) : Prop where
  ahead : ∀ t ∈ near, t ∈ points
  passed : ∀ t ∈ points, t ∈ near ∨ t.OnCircle ∧ s.target.distance s.start ≤ s.target.distance t

/-- The driver goes toward the next of the points. -/
theorem OnRoute.isNext (on : OnRoute s (point :: near) far)
    (hpasses : s.Passes points (point :: near)) : IsNext points s.start point := by
  obtain ⟨hdist, hpoint, hpos⟩ := on.point_distance
  have hlt := distance_lt s.target s.start
  refine ⟨hpasses.ahead _ List.mem_cons_self, hpos, fun q hq hnewer => ?_⟩
  rcases hpasses.passed q hq with hnear | ⟨hqc, hbehind⟩
  · have hq0 := on.route.distance_nonneg (List.mem_cons_of_mem _ hnear)
    have hle : s.target.distance q ≤ s.target.distance point := by
      rcases List.mem_cons.mp hnear with rfl | hrest
      · exact Int.le_refl _
      · have hdesc := (List.pairwise_cons.mp on.route.descending).2
        exact Int.le_of_lt ((List.pairwise_cons.mp hdesc).1 q hrest)
    have hqc := on.route.onCircle q (List.mem_cons_of_mem _ hnear)
    rw [distance_eq_sub on.onCircle_target hqc on.onCircle_start (by omega) (by omega)]
    omega
  · have hltq := distance_lt s.target q
    have hstart := on.target_distance_start
    rw [distance_eq_sub on.onCircle_target hqc on.onCircle_start (by omega) (by omega)] at hnewer
    omega

variable [Seconds τ] [Fraction φ]

theorem Passes.hop (on : OnRoute s (point :: near) far) (h : s.Passes points (point :: near))
    (config : Config τ φ) (flags : StepFlags) : (s.afterHop config flags point (near ++ far)).Passes
      points (s.remaining config point near) where
  ahead := by
    intro t ht
    refine h.ahead t ?_
    unfold remaining at ht
    split at ht
    · exact ht
    · exact List.mem_cons_of_mem _ ht
  passed := by
    have hstop := on.target_distance_stop config
    intro t ht
    show t ∈ s.remaining config point near ∨ t.OnCircle ∧
      s.target.distance (s.start.shift (s.nextLength config point)) ≤ s.target.distance t
    rcases h.passed t ht with hnear | ⟨htc, hle⟩
    · unfold remaining
      split
      · exact Or.inl hnear
      · rename_i hend
        rw [on.stop_eq_point hend]
        rcases List.mem_cons.mp hnear with rfl | hnear
        · exact Or.inr ⟨on.onCircle_point, Int.le_refl _⟩
        · exact Or.inl hnear
    · exact Or.inr ⟨htc, by omega⟩

/-- A hop that does not stop at the last full tick is as long as the way to its point, or as its
budget. -/
theorem OnRoute.inPhase (on : OnRoute s (point :: near) far)
    (hpasses : s.Passes points (point :: near)) (config : Config τ φ) (flags : StepFlags)
    (hgap : gap s.start point s.lastFull = point.distance s.start) :
    InPhase points (s.purse config)
      (decide (0 < (s.start.shift (s.nextLength config point)).distance s.lastFull))
      (s.hopInvocation config flags point) where
  batch := by
    have hpos := on.point_distance.2.2
    have hlength := toNat_nextLength config hpos
    refine ⟨point, ?_, ?_⟩
    · rw [start_hopInvocation]
      exact on.isNext hpasses
    · rw [start_hopInvocation]
      show ((s.nextLength config point).toNat : Int) = _
      rw [hlength, hgap]
      omega
  flag := (s.contains_hop config flags point).1

section Replay

variable {config : Config τ φ} {is : List (Invocation τ φ)}

/-- Once the driver has caught up with its last full tick, every batch is new. -/
theorem Replay.all_new (h : Replay (· = config) far near s is s') (hat : s.lastFull = s.start)
    (hpasses : s.Passes points near) :
    ∀ i ∈ is, s.target.distance i.start ≤ s.target.distance s.start ∧
      InPhase points config.firstBudget true i := by
  induction h with
  | arrived => simp
  | @hop s s' point near config' flags is on legal hrest ih =>
    subst legal
    obtain ⟨hdist, hpoint, hpos⟩ := on.point_distance
    have hstop := on.target_distance_stop config'
    have hlength := (on.nextLength_bounds config').1
    have hgap : gap s.start point s.lastFull = point.distance s.start := by
      rw [hat, gap, distance_self]
      exact if_neg fun h => absurd h.1 (by omega)
    have hpurse : s.purse config' = config'.firstBudget := if_pos hat.symm
    have hnew : 0 < (s.start.shift (s.nextLength config' point)).distance s.lastFull := by
      rw [on.stop_distance_lastFull config' flags (by rw [hat]; omega), hat]
      omega
    have hphase := on.inPhase hpasses config' flags hgap
    rw [hpurse, decide_eq_true hnew] at hphase
    have hmoved : (s.afterHop config' flags point (near ++ far)).lastFull =
        (s.afterHop config' flags point (near ++ far)).start := if_pos hnew
    intro i hi
    rcases List.mem_cons.mp hi with rfl | hi
    · exact ⟨by rw [start_hopInvocation], hphase⟩
    · obtain ⟨hle, hlater⟩ := ih hmoved (Passes.hop on hpasses config' flags) i hi
      have hle : s.target.distance i.start ≤
          s.target.distance (s.start.shift (s.nextLength config' point)) := hle
      exact ⟨by omega, hlater⟩

/-- The batches of a replay up to its last full tick, and those from there on. -/
theorem Replay.phases (h : Replay (· = config) far near s is s') (hpasses : s.Passes points near)
    (hmet : s.lastFull ∈ s.start :: near ∨ s.target.distance s.lastFull ≤ 0)
    (hclose : s.target.distance s.start - s.target.distance s.lastFull < 1073741824) :
    ∃ before after, is = before ++ after ∧
      (∀ i ∈ before, s.target.distance s.lastFull < s.target.distance i.start ∧
        i.tick.distance s.lastFull ≤ 0 ∧ InPhase points s.budget false i) ∧
      (∀ i ∈ after, s.target.distance i.start ≤ s.target.distance s.lastFull ∧
        InPhase points config.firstBudget true i) ∧
      ∀ i, after.head? = some i → i.start = s.lastFull := by
  induction h with
  | arrived => exact ⟨[], [], rfl, by simp, by simp, by simp⟩
  | @hop s s' point near config' flags is on legal hrest ih =>
    obtain ⟨hdist, hpoint, hpos⟩ := on.point_distance
    by_cases hat : s.lastFull = s.start
    · have hreplay : Replay (· = config) far (point :: near) s
          (s.hopInvocation config' flags point :: is) s' := .hop on legal hrest
      have hall := hreplay.all_new hat hpasses
      refine ⟨[], _, rfl, by simp, fun i hi => ?_, fun i hi => ?_⟩
      · rw [hat]
        exact hall i hi
      · obtain rfl := Option.some.inj hi
        rw [start_hopInvocation, hat]
    · subst legal
      have hlength := (on.nextLength_bounds config').1
      -- a last full tick that is met later, or not at all, is not behind the next point
      have hmet' : s.lastFull ∈ point :: near ∨ s.target.distance s.lastFull ≤ 0 :=
        hmet.imp_left fun hmem => (List.mem_cons.mp hmem).resolve_left hat
      have hbeyond : s.target.distance s.lastFull ≤ s.target.distance point := by
        rcases hmet' with hmem | hle
        · rcases List.mem_cons.mp hmem with heq | hmem
          · exact heq ▸ Int.le_refl _
          · have hdesc := (List.pairwise_cons.mp on.route.descending).2
            exact Int.le_of_lt ((List.pairwise_cons.mp hdesc).1 _ hmem)
        · omega
      have hahead : s.lastFull.distance s.start =
          s.target.distance s.start - s.target.distance s.lastFull :=
        distance_eq_sub on.onCircle_target on.lastFull on.onCircle_start (by omega) (by omega)
      have hgap : gap s.start point s.lastFull = point.distance s.start :=
        if_neg fun h => absurd h.2 (by omega)
      have hpurse : s.purse config' = s.budget := if_neg fun heq => hat heq.symm
      have hstop := on.target_distance_stop config'
      have hle := (on.nextLength_bounds config').2
      have hdistance := on.stop_distance_lastFull config' flags (by omega)
      have hold : ¬0 < (s.start.shift (s.nextLength config' point)).distance s.lastFull := by omega
      have hphase := on.inPhase hpasses config' flags hgap
      rw [hpurse, decide_eq_false hold] at hphase
      have hkept : (s.afterHop config' flags point (near ++ far)).lastFull = s.lastFull :=
        if_neg hold
      have hbudget : (s.afterHop config' flags point (near ++ far)).budget = s.budget := hpurse
      have hstart : (s.afterHop config' flags point (near ++ far)).start =
        s.start.shift (s.nextLength config' point) := rfl
      have htarget : (s.afterHop config' flags point (near ++ far)).target = s.target := rfl
      have ih := ih (Passes.hop on hpasses config' flags)
      rw [hkept, hbudget, htarget, hstart] at ih
      have hmet'' : s.lastFull ∈ s.start.shift (s.nextLength config' point) ::
          s.remaining config' point near ∨ s.target.distance s.lastFull ≤ 0 := by
        refine hmet'.imp_left fun hmem => ?_
        unfold remaining
        split
        · exact List.mem_cons_of_mem _ hmem
        · rename_i hend
          rwa [on.stop_eq_point hend]
      obtain ⟨before, after, rfl, hbefore, hafter, hhead⟩ := ih hmet'' (by omega)
      refine ⟨_ :: before, after, rfl, fun i hi => ?_, hafter, hhead⟩
      rcases List.mem_cons.mp hi with rfl | hi
      · refine ⟨?_, ?_, hphase⟩
        · rw [start_hopInvocation]
          omega
        · show (s.start.shift (s.nextLength config' point)).distance s.lastFull ≤ 0
          omega
      · exact hbefore i hi

end Replay

/-! ## The budget of a burst -/

variable {c : Scene τ φ H}

/-- Everything is predicted anew: there is no last full tick, or only one past the history. -/
def StartsAnew (s : Prediction τ φ) (c : Scene τ φ H) : Prop :=
  s.lastFull.isValid = false ∨
    c.world.config.history.toNat < c.world.confirmed.tick.distance s.lastFull

omit [Seconds τ] in
instance (s : Prediction τ φ) (c : Scene τ φ H) : Decidable (s.StartsAnew c) :=
  inferInstanceAs (Decidable (_ ∨ _))

/-- The budget of a batch that starts at a tick: that for new ticks if the tick is not older than
the last full one. -/
def budgetAt (s : Prediction τ φ) (c : Scene τ φ H) (t : Tick) : UInt32 :=
  if s.StartsAnew c ∨ ¬t.distance s.lastFull < 0 then c.world.config.firstBudget
  else c.world.config.repeatBudget

omit [Seconds τ] in
theorem StartsAnew.lastFull_planned (h : s.StartsAnew c) :
    (s.planned c).lastFull = c.world.confirmed.target := by
  unfold planned isStale seeded
  rcases h with hinvalid | hpast
  · simp [hinvalid]
  · by_cases hv : s.lastFull.isValid = true
    · simp [hv, hpast]
    · simp [hv]

omit [Seconds τ] in
theorem lastFull_planned_of_not_startsAnew (h : ¬s.StartsAnew c) :
    s.lastFull.isValid = true ∧
      c.world.confirmed.tick.distance s.lastFull ≤ c.world.config.history.toNat ∧
      (s.planned c).lastFull = s.lastFull := by
  obtain ⟨hv, hpast⟩ := not_or.mp h
  have hv : s.lastFull.isValid = true := by simpa using hv
  refine ⟨hv, Int.not_lt.mp hpast, ?_⟩
  simp [planned, isStale, seeded, hv, hpast]

/-- The phases of a burst: what each batch is, that none runs over the last full tick, and that the
budget changes once at most, and there. -/
structure Phased (s : Prediction τ φ) (c : Scene τ φ H) (points : List Tick)
    (whole : List (Invocation τ φ)) : Prop where
  inPhase : ∀ i ∈ whole, InPhase points (s.budgetAt c i.start)
    (decide (¬s.StartsAnew c ∧ ¬i.start.distance s.lastFull < 0)) i
  crosses_none : s.lastFull.isValid = true → ∀ i ∈ whole,
    ¬(i.start.distance s.lastFull < 0 ∧ 0 < i.tick.distance s.lastFull)
  changes_once : ¬s.StartsAnew c → ∃ before after, whole = before ++ after ∧
    (∀ i ∈ before, i.start.distance s.lastFull < 0) ∧
    (∀ i ∈ after, ¬i.start.distance s.lastFull < 0) ∧
    ∀ i, after.head? = some i → i.start = s.lastFull

variable [Clock τ φ]

theorem budget_entered (s : Prediction τ φ) (c : Scene τ φ H) (start : Tick) (ahead : List Tick) :
    (s.entered c start ahead).budget =
      if s.StartsAnew c then c.world.config.firstBudget else c.world.config.repeatBudget := by
  simp only [entered, begun, StartsAnew, isStale, seeded]
  by_cases hv : s.lastFull.isValid = true <;> simp [hv]

section Plan

variable {start oldest : Tick} {is : List (Invocation τ φ)} {s₁ : Prediction τ φ}

theorem passes_entered (hroute : Route c.world.confirmed.target (start :: near)) :
    (s.entered c start near).Passes (start :: near) near where
  ahead := fun _ => List.mem_cons_of_mem _
  passed := by
    intro t ht
    rcases List.mem_cons.mp ht with rfl | ht
    · exact Or.inr ⟨hroute.onCircle _ List.mem_cons_self, Int.le_refl _⟩
    · exact Or.inl ht

/-- Where batches start, seen from the target. -/
theorem Replay.distance_start (hc : c.world.confirmed.tick.OnCircle)
    (h : Replay (· = c.world.config) [] near (s.entered c start near) is s₁) :
    ∀ i ∈ is, i.start.OnCircle ∧ 0 < c.world.confirmed.target.distance i.start ∧
      c.world.confirmed.target.distance i.start ≤ c.world.confirmed.target.distance start := by
  have hg := Confirmed.onCircle_target hc
  intro i hi
  obtain ⟨hon, -, hle⟩ := h.tiles.distance_bounds hg h.cover_lt _ (h.tiles.start_mem i hi)
  exact ⟨hon, h.tiles.distance_start_pos hg h.cover_lt i hi, hle⟩

omit [Seconds τ] [Clock τ φ] in
/-- The last full tick lies where it does seen from the confirmed tick, and less than half the
circle from the start of a burst. -/
theorem Plan.distance_lastFull (hplan : s.Plan c oldest (start :: near)) (hs : s.Sound)
    (hc : c.world.confirmed.tick.OnCircle) (hn : s.Close c) (hv : s.lastFull.isValid = true) :
    c.world.confirmed.target.distance s.lastFull =
        c.world.confirmed.tick.distance s.lastFull - c.world.confirmed.lag ∧
      c.world.confirmed.target.distance start - c.world.confirmed.target.distance s.lastFull <
        1073741824 := by
  have hnear := hn.lastFull hv
  have hle := hplan.distance_le_oldest hs hc List.mem_cons_self
  have hlt := hn.distance_lt hc hplan.isOldest.1
  have hstart := hplan.distance_start hs hc
  have hlag := c.world.confirmed.lag_le_one
  unfold Near at hnear
  have hlast := Confirmed.target_distance hc (hs.lastFull.onCircle hv) (by omega)
  exact ⟨hlast, by omega⟩

/-- A replay under settings that do not change is phased. -/
theorem Replay.phased (hplan : s.Plan c oldest (start :: near)) (hs : s.Sound)
    (hc : c.world.confirmed.tick.OnCircle) (hn : s.Close c)
    (hroute : Route c.world.confirmed.target (start :: near))
    (h : Replay (· = c.world.config) [] near (s.entered c start near) is s₁) :
    s.Phased c (start :: near) is := by
  have hg := Confirmed.onCircle_target hc
  have hself := distance_self c.world.confirmed.target
  have hlt := distance_lt c.world.confirmed.target start
  have hstarts := h.distance_start hc
  have hreach := (hplan.mem_cases hs hc List.mem_cons_self).2.1
  have hstart := hplan.distance_start hs hc
  -- a start lies behind the last full tick if it is farther from the target
  have hbehind : s.lastFull.isValid = true → ∀ i ∈ is, i.start.distance s.lastFull =
      c.world.confirmed.target.distance s.lastFull - c.world.confirmed.target.distance i.start := by
    intro hv i hi
    obtain ⟨hon, hpos, hle⟩ := hstarts i hi
    obtain ⟨-, hclose⟩ := hplan.distance_lastFull hs hc hn hv
    have hltl := distance_lt c.world.confirmed.target s.lastFull
    exact distance_eq_sub hg hon (hs.lastFull.onCircle hv) (by omega) (by omega)
  have hseeded : (s.entered c start near).lastFull = (s.planned c).lastFull := rfl
  have hphases := h.phases (passes_entered hroute)
  rw [hseeded, budget_entered, entered_target, entered_start] at hphases
  by_cases hanew : s.StartsAnew c
  · rw [hanew.lastFull_planned, if_pos hanew, hself] at hphases
    obtain ⟨before, after, rfl, hbefore, hafter, -⟩ :=
      hphases (Or.inr (Int.le_refl 0)) (by omega)
    obtain rfl : after = [] := List.eq_nil_iff_forall_not_mem.mpr fun i hi => by
      have := (hstarts i (List.mem_append_right _ hi)).2.1
      have := (hafter i hi).1
      omega
    rw [List.append_nil] at hstarts hbehind ⊢
    refine ⟨fun i hi => ?_, fun hv i hi hcross => ?_, fun h => absurd hanew h⟩
    · rw [budgetAt, if_pos (Or.inl hanew), decide_eq_false (fun h => h.1 hanew)]
      exact (hbefore i hi).2.2
    · -- the last full tick is past the history, and no batch starts there
      have hpast := hanew.resolve_left (by simp [hv])
      have hlast := (hplan.distance_lastFull hs hc hn hv).1
      have hle := (hstarts i hi).2.2
      rw [hbehind hv i hi] at hcross
      omega
  · obtain ⟨hv, hin, hlast⟩ := lastFull_planned_of_not_startsAnew hanew
    obtain ⟨hlag, hclose⟩ := hplan.distance_lastFull hs hc hn hv
    have hmet : s.lastFull ∈ start :: near ∨
        c.world.confirmed.target.distance s.lastFull ≤ 0 := by
      refine Classical.or_iff_not_imp_right.mpr fun hnew => ?_
      have hcomm := distance_comm hg (hs.lastFull.onCircle hv) (by omega)
      exact (hplan.mem_iff _).mpr (Or.inl ⟨Or.inr (Or.inr ⟨rfl, hv, by omega⟩), by omega, hin⟩)
    rw [hlast, if_neg hanew] at hphases
    obtain ⟨before, after, rfl, hbefore, hafter, hhead⟩ := hphases hmet hclose
    have holder : ∀ i ∈ before, i.start.distance s.lastFull < 0 := fun i hi => by
      rw [hbehind hv i (List.mem_append_left _ hi)]
      have := (hbefore i hi).1
      omega
    have hnewer : ∀ i ∈ after, ¬i.start.distance s.lastFull < 0 := fun i hi => by
      rw [hbehind hv i (List.mem_append_right _ hi)]
      have := (hafter i hi).1
      omega
    refine ⟨fun i hi => ?_, fun _ i hi hcross => ?_,
      fun _ => ⟨before, after, rfl, holder, hnewer, hhead⟩⟩
    · rcases List.mem_append.mp hi with hi | hi
      · have hold := holder i hi
        rw [budgetAt, if_neg (by simp [hanew, hold]), decide_eq_false (fun h => h.2 hold)]
        exact (hbefore i hi).2.2
      · have hnew := hnewer i hi
        rw [budgetAt, if_pos (Or.inr hnew), decide_eq_true ⟨hanew, hnew⟩]
        exact (hafter i hi).2
    · rcases List.mem_append.mp hi with hi | hi
      · have := (hbefore i hi).2.1
        omega
      · exact hnewer i hi hcross.1

end Plan

variable [Host H τ] [LawfulFraction φ]

/-- Every burst near its confirmed tick whose settings do not change is phased, by the last full
tick that it found. With a quiet body every frame returns. -/
theorem burst_phased (body : Scene τ φ H → Except Fault (Scene τ φ H)) (hs : s.Sound)
    (hb : c.world.confirmed.Built) (hn : s.Close c)
    (hkeeps : ∀ c₁ c₂, body c₁ = .ok c₂ → c₁.world.config = c.world.config →
      c₂.world.config = c.world.config) :
    (Quiet body → ∃ turn, run (.idle s) c body = .ok turn) ∧
      ∀ turn, run (.idle s) c body = .ok turn → turn.found ≠ [] →
        ∃ oldest points, IsOldest c.world.confirmed.tick (s.basisOf c) oldest ∧
          (∀ t, t ∈ points ↔
            t ∈ pointSet c.world.confirmed c.world.config.history (s.basisOf c)
              (s.heard c).inputs oldest) ∧
          ∃ start whole rest, turn.invocations = whole ++ rest ∧
            Shape c.world.confirmed start whole rest ∧ s.Phased c points whole := by
  refine ⟨fun hq => exists_turn hq hs hb hn, fun turn hrun hfound => ?_⟩
  obtain ⟨hv, hg⟩ := of_found_ne_nil hrun hfound
  have hc := hb.onCircle hv
  obtain ⟨oldest, start, near, hplan, hroute, hentry⟩ :=
    exists_near_entry hs hc hg (hn.noneFar hc)
  rcases run_cases (P := (· = c.world.config)) hkeeps rfl hs hc hroute hentry hrun with
    ⟨-, -, rfl⟩ | ⟨hmore, is, s₁, _, c₁, hreplay, hinv, -, -, -, -⟩
  · exact absurd rfl hfound
  · exact ⟨oldest, start :: near, hplan.isOldest, hplan.mem_iff, start, is, _, hinv,
      shape_of_replay hb hc hmore hreplay c₁, hreplay.phased hplan hs hc hn hroute⟩

/-- With state of tick `5` and all predicted up to tick `8`, a burst to tick `10` repeats up to tick
`8`, two ticks at a time, and goes on from there three ticks at a time. -/
theorem burst_phased_client :
    ∃ turn points start whole rest before after,
      run (.idle { initial.recorded [ofIndex 5] [] with lastFull := ofIndex 8 })
        (Scene.client { Config.standard with maxRepeat := 2, maxFirst := 3 }
          (Confirmed.inProgress (ofIndex 11) Fraction.half)) .ok = .ok turn ∧
      turn.invocations = whole ++ rest ∧
      Shape (Confirmed.inProgress (ofIndex 11) Fraction.half) start whole rest ∧
      whole = before ++ after ∧ (∀ i ∈ before, InPhase points 2 false i) ∧
      (∀ i ∈ after, InPhase points 3 true i) ∧ ∀ i, after.head? = some i → i.start = ofIndex 8 := by
  have hrecorded : (initial.recorded [ofIndex 5] [] : Prediction Float Float32).Sound :=
    sound_initial.recorded (by simp [Regular, OnCircle.ofIndex]) (by simp)
  have hs : ({ initial.recorded [ofIndex 5] [] with lastFull := ofIndex 8 } :
      Prediction Float Float32).Sound := ⟨hrecorded.history, Or.inr (OnCircle.ofIndex 8)⟩
  have hn : ({ initial.recorded [ofIndex 5] [] with lastFull := ofIndex 8 } :
      Prediction Float Float32).Close (Scene.client
        { Config.standard with maxRepeat := 2, maxFirst := 3 }
        (Confirmed.inProgress (ofIndex 11) Fraction.half)) := ⟨by decide, by decide⟩
  have hc := OnCircle.ofIndex 11
  obtain ⟨hreturns, hphased⟩ := burst_phased .ok hs (.inProgress (Or.inr hc) _) hn
    fun _ _ h hconfig => Except.ok.inj h ▸ hconfig
  obtain ⟨turn, hrun⟩ := hreturns fun c => ⟨c, rfl, rfl, rfl⟩
  obtain ⟨-, _, _, -, hroute, hentry⟩ := exists_near_entry hs hc (by decide) (hn.noneFar hc)
  have hfound := (found_ne_nil_iff hs hc hroute hentry hrun).mpr (Or.inr (by decide))
  obtain ⟨-, points, -, -, start, whole, rest, hinv, hshape, h⟩ := hphased turn hrun hfound
  obtain ⟨before, after, rfl, holder, hnewer, hhead⟩ := h.changes_once (by decide)
  refine ⟨turn, points, start, _, rest, before, after, hrun, hinv, hshape, rfl, fun i hi => ?_,
    fun i hi => ?_, hhead⟩
  · have hphase := h.inPhase i (List.mem_append_left _ hi)
    rwa [budgetAt, if_neg (not_or.mpr ⟨by decide, not_not.mpr (holder i hi)⟩),
      decide_eq_false fun hnew => hnew.2 (holder i hi)] at hphase
  · have hphase := h.inPhase i (List.mem_append_right _ hi)
    rwa [budgetAt, if_pos (Or.inr (hnewer i hi)),
      decide_eq_true ⟨by decide, hnewer i hi⟩] at hphase

end Prediction

end Metronome
