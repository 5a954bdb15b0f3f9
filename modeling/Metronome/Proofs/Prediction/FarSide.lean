import Metronome.Proofs.Prediction.FirstTime

/-!
# Replay points on the far side

A tick half the circle away from the target is neither newer than it nor too old, so it passes for a
replay point; but it is sorted after the target (`Plan.far_cases`). A burst that reaches its target
then goes on toward the far point. It follows a last full tick that is ahead of the target, or jumps
to the point in a batch of one tick (`exists_nextBatch`). Which of the two it does is decided when
the replay sets out (`Replay.overtaken_iff`).
-/

namespace Metronome.Prediction

open Tick

variable {τ φ H : Type}

/-! ## Far points -/

section Points

variable [Fraction φ] {s : Prediction τ φ} {c : Scene τ φ H} {oldest start : Tick}
    {near far : List Tick}

/-- The opposite of a confirmed tick under way is as far behind its target as a tick can be. -/
theorem target_distance_opposite {c : Confirmed φ} (hc : c.tick.OnCircle)
    (hpart : c.isPartial = true) : c.target.distance c.tick.opposite = 1073741823 := by
  have hg := Confirmed.onCircle_target hc
  have hopp := distance_opposite hc
  have hlag := Confirmed.distance_target hc
  have hone : c.lag = 1 := by simp [Confirmed.lag, hpart]
  obtain ⟨k, hk⟩ := distance_triangle hc hg hc.opposite
  have := distance_lt c.target c.tick.opposite
  have := le_distance c.target c.tick.opposite
  omega

/-- It passes for newer than a last full tick from two ticks ahead of the target on. -/
theorem passes_opposite_iff {c : Confirmed φ} (hc : c.tick.OnCircle) (hpart : c.isPartial = true)
    {lastFull : Tick} (hl : lastFull.OnCircle) :
    (0 < lastFull.distance c.target ∧ 0 < c.tick.opposite.distance lastFull) ↔
      2 ≤ lastFull.distance c.target := by
  have hg := Confirmed.onCircle_target hc
  have hopp := target_distance_opposite hc hpart
  have hcomm := distance_comm hg hc.opposite (by omega)
  obtain ⟨k, hk⟩ := distance_triangle hc.opposite hl hg
  have := distance_lt lastFull c.target
  have := distance_lt c.tick.opposite lastFull
  have := le_distance c.tick.opposite lastFull
  omega

/-- Far points are behind the target by the test of a replay point. -/
theorem IsFar.distance_target {c : Confirmed φ} (hc : c.tick.OnCircle) {t : Tick} (h : IsFar c t) :
    t.distance c.target < 0 := by
  have hg := Confirmed.onCircle_target hc
  rcases h with rfl | ⟨hpart, rfl⟩
  · have := opposite_distance hg
    omega
  · have hopp := target_distance_opposite hc hpart
    have := distance_comm hg hc.opposite (by omega)
    omega

/-- A far tick that the replay may have to start from is a far point. -/
theorem Plan.mem_far (hp : s.Plan c oldest (start :: (near ++ far)))
    (hc : c.world.confirmed.tick.OnCircle) (hroute : Route c.world.confirmed.target (start :: near))
    (hdist : ∀ t ∈ start :: near, c.world.confirmed.tick.distance t =
      c.world.confirmed.target.distance t + c.world.confirmed.lag)
    {t : Tick} (hb : t ∈ s.basisOf c) (hfar : IsFar c.world.confirmed t) : t ∈ far := by
  have hbehind := hfar.distance_target hc
  have hlow := hfar.distance_le hc
  have hpoint : t ∈ start :: near ++ far := (hp.mem_iff t).mpr (Or.inl ⟨hb, by omega, by omega⟩)
  rcases List.mem_append.mp hpoint with hnear | hfar
  · have := hroute.distance_nonneg hnear
    have := hdist t hnear
    have := c.world.confirmed.lag_nonneg
    omega
  · exact hfar

/-- There is no far point, or the opposite of the target comes first, or the only one is the
opposite of a confirmed tick that is under way. -/
theorem Plan.far_cases (hp : s.Plan c oldest (start :: (near ++ far)))
    (hc : c.world.confirmed.tick.OnCircle)
    (hfar : ∀ t ∈ far, IsFar c.world.confirmed t ∧ t ∈ s.basisOf c) :
    far = [] ∨ (∃ rest, far = c.world.confirmed.target.opposite :: rest) ∨
      c.world.confirmed.isPartial = true ∧ far = [c.world.confirmed.tick.opposite] := by
  match far with
  | [] => exact Or.inl rfl
  | p :: rest =>
    rcases (hfar p List.mem_cons_self).1 with rfl | ⟨hpart, rfl⟩
    · exact Or.inr (Or.inl ⟨rest, rfl⟩)
    · -- nothing is sorted after the opposite of the confirmed tick
      have hopp := distance_opposite hc
      have hafter := (List.pairwise_append.mp (List.pairwise_cons.mp hp.descending).2).2.1
      have hdesc := (List.pairwise_cons.mp hafter).1
      obtain rfl : rest = [] := List.eq_nil_iff_forall_not_mem.mpr fun t ht => by
        have := hdesc t ht
        have := le_distance c.world.confirmed.tick t
        omega
      exact Or.inr (Or.inr ⟨hpart, rfl⟩)

end Points

/-! ## Batches toward a point behind -/

/-- Toward a point behind, a batch follows the last full tick if that lies ahead and the point
passes for newer still. Otherwise it jumps. -/
theorem exists_nextBatch {start point lastFull : Tick} (hs : start.OnCircle) (hp : point.OnCircle)
    (hl : lastFull.OnCircle) (hbehind : point.distance start ≤ 0) {budget firstBudget : UInt32}
    (hbudget : 1 ≤ (if start = lastFull then firstBudget else budget).toNat) :
    ∃ b, nextBatch start point lastFull budget firstBudget = .ok b ∧
      (0 < lastFull.distance start → 0 < point.distance lastFull →
        ∃ n : UInt32, 1 ≤ n.toNat ∧ (n.toNat : Int) ≤ lastFull.distance start ∧
        b.stop = start.shift n) ∧
      (¬(0 < lastFull.distance start ∧ 0 < point.distance lastFull) →
        b = ⟨point, 1, false, if start = lastFull then firstBudget else budget⟩) := by
  have h1 : (1 : UInt32).toNat = 1 := rfl
  have hcross : (if start == lastFull then pure false else crosses start point lastFull) =
      .ok (decide (0 < lastFull.distance start ∧ 0 < point.distance lastFull)) := by
    by_cases heq : start = lastFull
    · simp [← heq]
    · rw [if_neg (by simpa using heq)]
      exact crosses_eq hs hp hl
  rw [nextBatch_eq hs hp hl hcross]
  simp only [beq_iff_eq]
  generalize (if start = lastFull then firstBudget else budget) = purse at hbudget ⊢
  refine ⟨_, rfl, fun hfirst hthen => ?_, fun hjump => ?_⟩
  · have hlt := distance_lt lastFull start
    have hword := word_of_distance hfirst hlt
    rw [decide_eq_true ⟨hfirst, hthen⟩, if_pos rfl]
    split
    · rename_i hover
      have hover := UInt32.lt_iff_toNat_lt.mp hover
      exact ⟨_, hbudget, by omega, rfl⟩
    · refine ⟨(max (lastFull.distance start) 1).toNat.toUInt32, by omega, by omega, ?_⟩
      exact eq_shift_of_distance hl hs (by omega)
  · have hone : (max (point.distance start) 1).toNat.toUInt32 = 1 := by
      rw [Int.max_eq_right (by omega)]
      rfl
    rw [decide_eq_false hjump, if_neg Bool.false_ne_true, hone, if_neg]
    intro hover
    have hover := UInt32.lt_iff_toNat_lt.mp hover
    omega

variable [Seconds τ] [Fraction φ]

/-! ## A last full tick ahead of the target -/

/-- How far behind its target the first batch of a replay ends, if the last full tick does
not come in between. -/
def firstLag (target start : Tick) (budget : UInt32) : List Tick → Int
  | [] => 0
  | next :: _ => max (target.distance next) (target.distance start - budget.toNat)

section Overtaken

omit [Seconds τ] [Fraction φ] in
/-- With its last full tick ahead of the target, the driver is only stopped by its
budget and its points. -/
theorem OnRoute.target_distance_eq_firstLag {s : Prediction τ φ} {next : Tick}
    {near far : List Tick} (on : OnRoute s (next :: near) far) (config : Config τ φ)
    (hover : 2 ≤ s.lastFull.distance s.target) :
    s.target.distance (s.start.shift (s.nextLength config next)) =
      firstLag s.target s.start s.budget (next :: near) := by
  obtain ⟨heq, hnext, hpos⟩ := on.point_distance
  have hstart := on.target_distance_start
  have hcomm := distance_comm on.lastFull on.onCircle_target (by omega)
  have hne : s.start ≠ s.lastFull := by
    intro h
    rw [h] at hstart
    omega
  obtain ⟨k, hk⟩ := distance_triangle on.lastFull on.onCircle_target on.onCircle_start
  have hgap : gap s.start next s.lastFull = next.distance s.start := by
    have := distance_lt s.lastFull s.start
    have := distance_lt s.lastFull s.target
    have := distance_lt s.target s.start
    refine if_neg ?_
    omega
  have hlength := toNat_nextLength config hpos
  have hpurse : s.purse config = s.budget := if_neg hne
  rw [hgap, hpurse] at hlength
  rw [on.target_distance_stop config, firstLag]
  omega

variable {P : Config τ φ → Prop} {near far : List Tick} {s s' : Prediction τ φ}
    {is : List (Invocation τ φ)}

/-- The last full tick stays, or it is where some batch ended. -/
theorem Replay.lastFull_cases (h : Replay P far near s is s') :
    s'.lastFull = s.lastFull ∨ 0 ≤ s.target.distance s'.lastFull := by
  induction h with
  | arrived => exact Or.inl rfl
  | @hop s s' point near config flags is on _ _ ih =>
    have hlow : 0 ≤ s.target.distance (s.start.shift (s.nextLength config point)) :=
      (on.hop config flags).target_distance_start
    rcases ih with hkept | hstop
    · rw [hkept]
      simp only [afterHop, counted, hopped]
      split
      · exact Or.inr hlow
      · exact Or.inl rfl
    · exact Or.inr hstop

/-- The driver arrives with a last full tick two ticks ahead of its target if it set out with one,
unless the first batch ends so far behind that its end passes for newer. -/
theorem Replay.overtaken_iff (h : Replay P far near s is s') :
    2 ≤ s'.lastFull.distance s.target ↔
      2 ≤ s.lastFull.distance s.target ∧
        firstLag s.target s.start s.budget near + s.lastFull.distance s.target ≤ 1073741824 := by
  have hg := h.arrives.onCircle_target
  have hl' := h.arrives.lastFull
  rw [h.frame.1] at hg
  have hbehind : 0 ≤ s.target.distance s'.lastFull → ¬2 ≤ s'.lastFull.distance s.target := by
    intro hle
    have := distance_comm hg hl' (by omega)
    omega
  by_cases hover : 2 ≤ s.lastFull.distance s.target
  · cases h with
    | arrived on =>
      have := distance_lt s.lastFull s.target
      refine iff_of_true hover ⟨hover, ?_⟩
      simp only [firstLag]
      omega
    | @hop _ _ point near config flags is on _ hrest =>
      have hlag := on.target_distance_eq_firstLag config hover
      have hlow : 0 ≤ s.target.distance (s.start.shift (s.nextLength config point)) :=
        (on.hop config flags).target_distance_start
      have hcomm := distance_comm on.lastFull hg (by omega)
      obtain ⟨k, hk⟩ :=
        distance_triangle hg (on.onCircle_start.shift (s.nextLength config point)) on.lastFull
      have := distance_lt s.target (s.start.shift (s.nextLength config point))
      have := distance_lt s.lastFull s.target
      have := distance_lt (s.start.shift (s.nextLength config point)) s.lastFull
      have := le_distance (s.start.shift (s.nextLength config point)) s.lastFull
      rw [← hlag]
      by_cases hnew : 0 < (s.start.shift (s.nextLength config point)).distance s.lastFull
      · refine iff_of_false ?_ (by omega)
        have hmoved : (s.afterHop config flags point (near ++ far)).lastFull =
          s.start.shift (s.nextLength config point) := if_pos hnew
        rcases hrest.lastFull_cases with hkept | hstop
        · rw [hmoved] at hkept
          exact hbehind (hkept ▸ hlow)
        · exact hbehind hstop
      · have hkept : (s.afterHop config flags point (near ++ far)).lastFull = s.lastFull :=
          if_neg hnew
        have hstay := hrest.repeats
        rw [hkept] at hstay
        have htarget : (s.afterHop config flags point (near ++ far)).target = s.target := rfl
        have hstart : (s.afterHop config flags point (near ++ far)).start =
          s.start.shift (s.nextLength config point) := rfl
        rw [htarget, hstart] at hstay
        rw [(hstay (by omega) (by omega)).2]
        exact iff_of_true hover ⟨hover, by omega⟩
  · refine iff_of_false ?_ fun h => hover h.1
    rcases h.lastFull_cases with hkept | hstop
    · rwa [hkept]
    · exact hbehind hstop

end Overtaken

end Metronome.Prediction
