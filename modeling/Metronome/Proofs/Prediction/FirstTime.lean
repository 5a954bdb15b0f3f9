import Metronome.Proofs.Cluster
import Metronome.Proofs.Prediction.Frame

/-!
# Ticks that are predicted for the first time

A batch is flagged as new if it ends past the last full tick, and then moves the last full tick to
its end. A replay that starts at or behind the last full tick stops there before it goes on, so its
new batches tile the way from the last full tick to the target (`Replay.advances`). One whose target
is not ahead of the last full tick has no new batch (`Replay.repeats`).

Of a whole frame over ticks that lie close together this gives `frame_advances`: the last full tick
becomes the target if that is newer, and the new batches tile the way it moves.
-/

namespace Metronome

open Tick

variable {τ φ H : Type}

/-- The invocations that are flagged as new. -/
def firstTimes (is : List (Invocation τ φ)) : List (Invocation τ φ) :=
  is.filter fun i => i.flags.contains StepFlags.firstTime

theorem firstTimes_cons (i : Invocation τ φ) (is : List (Invocation τ φ)) :
    firstTimes (i :: is) =
      if i.flags.contains StepFlags.firstTime then i :: firstTimes is else firstTimes is := by
  simp [firstTimes, List.filter_cons]

theorem firstTimes_append (is js : List (Invocation τ φ)) :
    firstTimes (is ++ js) = firstTimes is ++ firstTimes js :=
  List.filter_append is js

namespace Prediction

variable [Seconds τ] [Fraction φ]

/-- How far a hop ends past the last full tick. -/
theorem OnRoute.stop_distance_lastFull {s : Prediction τ φ} {point : Tick} {near far : List Tick}
    (on : OnRoute s (point :: near) far) (config : Config τ φ) (flags : StepFlags)
    (hclose : s.target.distance s.start - s.target.distance s.lastFull ≤ 1073741824) :
    (s.start.shift (s.nextLength config point)).distance s.lastFull =
      s.target.distance s.lastFull -
        s.target.distance (s.start.shift (s.nextLength config point)) := by
  have hdist := on.target_distance_stop config
  have hpos := (on.nextLength_bounds config).1
  have hlow : 0 ≤ s.target.distance (s.start.shift (s.nextLength config point)) :=
    (on.hop config flags).target_distance_start
  have hlt := distance_lt s.target s.lastFull
  exact distance_eq_sub on.onCircle_target (on.onCircle_start.shift _) on.lastFull
    (by omega) (by omega)

omit [Seconds τ] [Fraction φ] in
/-- A hop from behind the last full tick does not run past it. -/
theorem OnRoute.stops_at_lastFull {s : Prediction τ φ} {point : Tick} {near far : List Tick}
    (on : OnRoute s (point :: near) far) (config : Config τ φ)
    (hl : 0 ≤ s.target.distance s.lastFull)
    (hbehind : s.target.distance s.lastFull < s.target.distance s.start) :
    s.target.distance s.lastFull ≤
      s.target.distance (s.start.shift (s.nextLength config point)) := by
  have hdist := on.target_distance_stop config
  have hlength := toNat_nextLength config on.point_distance.2.2
  have hlt := distance_lt s.target s.start
  have hahead :=
    distance_eq_sub on.onCircle_target on.lastFull on.onCircle_start (by omega) (by omega)
  have hgap : gap s.start point s.lastFull ≤ s.lastFull.distance s.start := by
    unfold gap
    split <;> omega
  omega

section Replay

variable {P : Config τ φ → Prop} {near far : List Tick} {s s' : Prediction τ φ}
    {is : List (Invocation τ φ)}

/-- A replay toward a target that is not ahead of the last full tick predicts nothing
for the first time. -/
theorem Replay.repeats (h : Replay P far near s is s') (hl : s.target.distance s.lastFull ≤ 0)
    (hclose : s.target.distance s.start - s.target.distance s.lastFull ≤ 1073741824) :
    firstTimes is = [] ∧ s'.lastFull = s.lastFull := by
  induction h with
  | arrived => exact ⟨rfl, rfl⟩
  | @hop s s' point near config flags is on _ hrest ih =>
    have hdist := on.target_distance_stop config
    have hstop := on.stop_distance_lastFull config flags (by omega)
    have hlow : 0 ≤ s.target.distance (s.start.shift (s.nextLength config point)) :=
      (on.hop config flags).target_distance_start
    have hold : ¬0 < (s.start.shift (s.nextLength config point)).distance s.lastFull := by omega
    have hkept : (s.afterHop config flags point (near ++ far)).lastFull = s.lastFull := if_neg hold
    have hstart : (s.afterHop config flags point (near ++ far)).start =
      s.start.shift (s.nextLength config point) := rfl
    have htarget : (s.afterHop config flags point (near ++ far)).target = s.target := rfl
    rw [hkept, htarget, hstart] at ih
    obtain ⟨hnone, hlast⟩ := ih hl (by omega)
    rw [firstTimes_cons, (s.contains_hop config flags point).1, decide_eq_false hold,
      if_neg Bool.false_ne_true]
    exact ⟨hnone, hlast⟩

/-- The new batches of a replay from at or behind the last full tick tile the way from
there to the target. -/
theorem Replay.advances (h : Replay P far near s is s') (hl : 0 ≤ s.target.distance s.lastFull)
    (hbehind : s.target.distance s.lastFull ≤ s.target.distance s.start) :
    Tiles s.lastFull (firstTimes is) s.target ∧
      (cover (firstTimes is) : Int) = s.target.distance s.lastFull ∧
      s'.lastFull = s.target := by
  induction h with
  | @arrived s on =>
    have hself := distance_self s.target
    rw [on.start_eq_target] at hbehind
    have heq := eq_of_distance_eq_zero on.onCircle_target on.lastFull (by omega)
    exact ⟨heq.symm, by rw [← heq, hself]; rfl, heq.symm⟩
  | @hop s s' point near config flags is on _ hrest ih =>
    have hdist := on.target_distance_stop config
    have hlt := distance_lt s.target s.start
    have hlen := (on.nextLength_bounds config).1
    have hstop := on.stop_distance_lastFull config flags (by omega)
    have hstart : (s.afterHop config flags point (near ++ far)).start =
      s.start.shift (s.nextLength config point) := rfl
    have htarget : (s.afterHop config flags point (near ++ far)).target = s.target := rfl
    rw [htarget, hstart] at ih
    rw [firstTimes_cons, (s.contains_hop config flags point).1]
    by_cases heq : s.target.distance s.lastFull = s.target.distance s.start
    · -- caught up with the last full tick: the batch is new
      have hcaught := eq_of_distance_eq on.onCircle_target on.lastFull on.onCircle_start heq
      have hnew : 0 < (s.start.shift (s.nextLength config point)).distance s.lastFull := by omega
      have hmoved : (s.afterHop config flags point (near ++ far)).lastFull =
        s.start.shift (s.nextLength config point) := if_pos hnew
      have hlow : 0 ≤ s.target.distance (s.start.shift (s.nextLength config point)) :=
        (on.hop config flags).target_distance_start
      rw [hmoved] at ih
      obtain ⟨htiles, hcover, hlast⟩ := ih hlow (Int.le_refl _)
      rw [decide_eq_true hnew, if_pos rfl]
      refine ⟨⟨hlen, ?_, htiles⟩, ?_, hlast⟩
      · rw [hcaught]
        exact shiftBack_shift _ _
      · have hbatch : (s.hopInvocation config flags point).batch = s.nextLength config point := rfl
        simp only [cover, hbatch]
        omega
    · -- still behind: the batch repeats what was predicted
      have hahead := on.stops_at_lastFull config hl (by omega)
      have hold : ¬0 < (s.start.shift (s.nextLength config point)).distance s.lastFull := by omega
      have hkept : (s.afterHop config flags point (near ++ far)).lastFull = s.lastFull :=
        if_neg hold
      rw [hkept] at ih
      rw [decide_eq_false hold, if_neg Bool.false_ne_true]
      exact ih hl hahead

end Replay

/-! ## A frame over a cluster -/

/-- The newer of the last full tick and a target. Without a last full tick it is the target. -/
def newest (lastFull target : Tick) : Tick :=
  if 0 < target.distance (seeded lastFull target) then target else seeded lastFull target

/-- The ticks that the driver keeps belong to a set, up to the last full tick, which may
be the tick before. -/
structure Held (S : Set Tick) (s : Prediction τ φ) : Prop where
  applied : ∀ t ∈ s.history.applied.ticks, t ∈ S
  inputs : ∀ t ∈ s.history.inputs.ticks, t ∈ S
  lastFull : s.lastFull = Tick.invalid ∨ Around S s.lastFull

/-- The last full tick of a driver, if it has one, is within the history. -/
def Fresh (s : Prediction τ φ) (c : Scene τ φ H) : Prop :=
  s.lastFull.isValid = true →
    c.world.confirmed.tick.distance s.lastFull ≤ c.world.config.history.toNat

variable {S : Set Tick} {s : Prediction τ φ} {c : Scene τ φ H}

omit [Seconds τ] in
/-- A fresh driver goes by the last full tick that it has, or by the target. -/
theorem Fresh.lastFull_planned (h : s.Fresh c) (hc : c.world.confirmed.tick.OnCircle) :
    (s.planned c).lastFull = seeded s.lastFull c.world.confirmed.target := by
  have hlag := Confirmed.distance_target hc
  have := c.world.confirmed.lag_le_one
  have := one_le_history c.world.config
  refine if_neg ?_
  unfold isStale seeded
  split
  · rename_i hv
    simpa using h hv
  · rw [decide_eq_true_eq]
    omega

omit [Seconds τ] in
theorem around_target (hc : c.world.confirmed.tick ∈ S) : Around S c.world.confirmed.target := by
  unfold Confirmed.target
  split
  · exact Around.of_mem_shiftBack hc
  · exact Around.of_mem hc

namespace Held

omit [Seconds τ] in
theorem around_of_mem_basisOf (h : Held S s) (hc : c.world.confirmed.tick ∈ S) {t : Tick}
    (ht : t ∈ s.basisOf c) : Around S t := by
  rcases ht with ht | rfl | ⟨rfl, hv, -⟩
  · unfold heard at ht
    split at ht
    · simp [History.empty] at ht
    · exact Around.of_mem (h.applied t ht)
  · exact around_target hc
  · refine h.lastFull.resolve_left fun hinvalid => ?_
    simp [hinvalid] at hv

omit [Seconds τ] in
theorem around_of_mem (h : Held S s) (hc : c.world.confirmed.tick ∈ S) {oldest : Tick}
    {points : List Tick} (hp : s.Plan c oldest points) {t : Tick} (ht : t ∈ points) :
    Around S t := by
  rcases (hp.mem_iff t).mp ht with ⟨hb, -, -⟩ | ⟨n, hn, -, -, rfl⟩
  · exact h.around_of_mem_basisOf hc hb
  · unfold heard at hn
    split at hn
    · simp [History.empty] at hn
    · exact Around.of_mem_shiftBack (h.inputs n hn)

omit [Seconds τ] in
theorem around_seeded (h : Held S s) (hc : c.world.confirmed.tick ∈ S) :
    Around S (seeded s.lastFull c.world.confirmed.target) := by
  unfold seeded
  split
  · rename_i hv
    exact h.lastFull.resolve_left fun hinvalid => by simp [hinvalid] at hv
  · exact around_target hc

section Cluster

variable (hS : Cluster S)

include hS

omit [Seconds τ] [Fraction φ] in
theorem sound (h : Held S s) : s.Sound where
  history := ⟨fun t ht => hS.onCircle t (h.applied t ht), fun t ht => hS.onCircle t (h.inputs t ht)⟩
  lastFull := h.lastFull.imp_right hS.onCircle_of_around

omit [Seconds τ] in
theorem noneFar (h : Held S s) (hc : c.world.confirmed.tick ∈ S) : s.NoneFar c := by
  intro t ht hfar
  have hdist := hfar.distance_le (hS.onCircle _ hc)
  have := hS.natAbs_distance_le (Around.of_mem hc) (h.around_of_mem_basisOf hc ht)
  omega

omit [Seconds τ] in
/-- A last full tick behind the target is a replay point, so the replay starts at or behind it. -/
theorem seeded_mem (h : Held S s) (hc : c.world.confirmed.tick ∈ S) (hfresh : s.Fresh c)
    {oldest : Tick} {points : List Tick} (hp : s.Plan c oldest points)
    (hnew : 0 < c.world.confirmed.target.distance (seeded s.lastFull c.world.confirmed.target)) :
    seeded s.lastFull c.world.confirmed.target ∈ points := by
  by_cases hv : s.lastFull.isValid = true
  · have hseed : seeded s.lastFull c.world.confirmed.target = s.lastFull := if_pos hv
    have haround := h.around_seeded hc
    rw [hseed] at hnew haround ⊢
    have hcomm := hS.distance_comm (around_target hc) haround
    exact (hp.mem_iff _).mpr (Or.inl ⟨Or.inr (Or.inr ⟨rfl, hv, hnew⟩), by omega, hfresh hv⟩)
  · have hseed : seeded s.lastFull c.world.confirmed.target = c.world.confirmed.target := if_neg hv
    rw [hseed, distance_self] at hnew
    omega

end Cluster

end Held

variable [Clock τ φ]

theorem firstTimes_trailings (s : Prediction τ φ) (c : Scene τ φ H) :
    firstTimes (s.trailings c) = [] := by
  unfold trailings
  split
  · rw [firstTimes_cons, (contains_trailing s c).2.2.1]
    rfl
  · rfl

variable [Host H τ] {body : Scene τ φ H → Except Fault (Scene τ φ H)}

/-- A frame moves the last full tick to its target if that is newer, and its new batches
tile the way it moves. -/
theorem frame_advances (hS : Cluster S) (h : Held S s) (hcS : c.world.confirmed.tick ∈ S)
    (hg : ¬LacksGhost c) (hfresh : s.Fresh c) {turn : Bracket.Turn (Prediction τ φ) (Scene τ φ H)}
    (hrun : run (.idle s) c body = .ok turn) :
    ∃ s', turn.driver = .idle s' ∧ s'.history = History.empty ∧
      s'.lastFull = newest s.lastFull c.world.confirmed.target ∧
      Tiles (seeded s.lastFull c.world.confirmed.target) (firstTimes turn.invocations) s'.lastFull ∧
      (cover (firstTimes turn.invocations) : Int) =
        s'.lastFull.distance (seeded s.lastFull c.world.confirmed.target) := by
  have hc := hS.onCircle _ hcS
  have hsound := h.sound hS
  have hlast := hfresh.lastFull_planned hc
  obtain ⟨oldest, start, near, hplan, hroute, hentry⟩ :=
    exists_near_entry hsound hc hg (h.noneFar hS hcS)
  have hstart := h.around_of_mem hcS hplan List.mem_cons_self
  have hseed := h.around_seeded hcS
  have htarget := around_target hcS
  have hsum := hS.distance_add htarget hseed hstart
  have hsmall := hS.natAbs_distance_le hseed hstart
  rcases run_cases (keeps_true body) trivial hsound hc hroute hentry hrun with
    ⟨rfl, -, rfl⟩ | ⟨-, is, s₁, s', c₁, hreplay, hinv, -, hdriver, hkept, hempty⟩
  · -- nothing to replay, so the target is not ahead of the last full tick
    have hold :
        ¬0 < c.world.confirmed.target.distance (seeded s.lastFull c.world.confirmed.target) := by
      intro hnew
      have hfirst := List.mem_singleton.mp (h.seeded_mem hS hcS hfresh hplan hnew)
      have hfinal := List.mem_singleton.mp (hplan.target_mem hc)
      rw [hfirst, ← hfinal, distance_self] at hnew
      omega
    have hstays : newest s.lastFull c.world.confirmed.target =
        seeded s.lastFull c.world.confirmed.target := if_neg hold
    refine ⟨_, rfl, rfl, ?_, ?_, ?_⟩
    · rw [hstays, hlast]
    · exact hlast.symm
    · rw [hlast, distance_self]
      rfl
  · have hbegun : (s.entered c start near).lastFull = seeded s.lastFull c.world.confirmed.target :=
      hlast
    rw [hinv, firstTimes_append, firstTimes_trailings, List.append_nil]
    refine ⟨s', hdriver, hempty, ?_⟩
    rw [hkept]
    by_cases hnew :
      0 < c.world.confirmed.target.distance (seeded s.lastFull c.world.confirmed.target)
    · have hmoves : newest s.lastFull c.world.confirmed.target = c.world.confirmed.target :=
        if_pos hnew
      have hbehind :
          c.world.confirmed.target.distance (seeded s.lastFull c.world.confirmed.target) ≤
          c.world.confirmed.target.distance start := by
        rcases List.mem_cons.mp (h.seeded_mem hS hcS hfresh hplan hnew) with heq | hmem
        · rw [heq]
        · exact Int.le_of_lt ((List.pairwise_cons.mp hroute.descending).1 _ hmem)
      have hall := hreplay.advances
      rw [hbegun, entered_target, entered_start] at hall
      obtain ⟨htiles, hcover, hfinal⟩ := hall (Int.le_of_lt hnew) hbehind
      exact ⟨hfinal.trans hmoves.symm, hfinal ▸ htiles, hfinal ▸ hcover⟩
    · have hstays : newest s.lastFull c.world.confirmed.target =
          seeded s.lastFull c.world.confirmed.target :=
        if_neg hnew
      have hnone := hreplay.repeats
      rw [hbegun, entered_target, entered_start] at hnone
      obtain ⟨hnil, hfinal⟩ := hnone (by omega) (by omega)
      rw [hnil, hfinal]
      exact ⟨hstays.symm, rfl, by rw [distance_self]; rfl⟩

end Prediction

end Metronome
