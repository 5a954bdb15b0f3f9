import Metronome.Proofs.Prediction.Shape
import Mathlib.Data.List.Nodup

/-!
# What a burst covers

The replay points are a set that can be read off the recorded ticks. A burst runs if there are two
of them, or if the confirmed tick is under way. It starts at the oldest point, and every other point
is where exactly one batch ends.
-/

namespace Metronome.Prediction

open Tick

variable {τ φ H : Type} [Seconds τ] [Fraction φ]

section Batches

variable {P : Config τ φ → Prop} {near far : List Tick} {s s' : Prediction τ φ}
    {is : List (Invocation τ φ)}

/-- No two batches end on the same tick. -/
theorem Replay.nodup (h : Replay P far near s is s') : (is.map Invocation.tick).Nodup := by
  refine List.pairwise_map.mpr (h.ascending.imp fun {i j} hlt heq => ?_)
  rw [heq, distance_self] at hlt
  omega

/-- Exactly one batch ends on a near point. -/
theorem Replay.count_eq_one (h : Replay P far near s is s') {p : Tick} (hp : p ∈ near) :
    (is.map Invocation.tick).count p = 1 := by
  obtain ⟨i, hi, rfl⟩ := h.reaches p hp
  exact List.count_eq_one_of_mem h.nodup (List.mem_map_of_mem hi)

/-- No batch has the start or a near point strictly inside. -/
theorem Replay.not_inside (h : Replay P far near s is s') (hon : ∀ p ∈ s.start :: near, p.OnCircle)
    (hle : ∀ p ∈ s.start :: near, 0 ≤ s.target.distance p) :
    ∀ i ∈ is, ∀ p ∈ s.start :: near,
      ¬(0 < p.distance (i.tick.shiftBack i.batch) ∧ 0 < i.tick.distance p) := by
  have hg := h.frame.1 ▸ h.arrives.onCircle_target
  intro i hi p hp ⟨hafter, hbefore⟩
  obtain ⟨hic, hlo, hhi⟩ := h.between i hi
  have hpc := hon p hp
  have hp0 := hle p hp
  have hlt := distance_lt s.target s.start
  have hltp := distance_lt s.target p
  have hstart := h.passes_none i hi s.start List.mem_cons_self
  have hback := distance_shiftBack_right (n := i.batch) hg hic (by omega)
  rw [distance_eq_sub hg hpc (hic.shiftBack _) (by omega) (by omega)] at hafter
  rw [distance_eq_sub hg hic hpc (by omega) (by omega)] at hbefore
  have := h.passes_none i hi p hp
  omega

end Batches

variable [Clock τ φ] [Host H τ] [LawfulFraction φ] {s : Prediction τ φ} {c : Scene τ φ H}

/-- The replay points that the driver collects for a frame can be told by what was recorded for it,
and a burst covers exactly them. The driver begins a burst at the first of its points, with the
others ahead, if there are two of them or the confirmed tick is under way. Otherwise no body runs.
The first batch starts at the oldest point, and every other point is where exactly one batch
ends. -/
theorem burst_covers_points (body : Scene τ φ H → Except Fault (Scene τ φ H)) (hs : s.Sound)
    (hb : c.world.confirmed.Built) (hv : c.world.confirmed.isValid = true) (hn : s.Close c)
    (hg : ¬LacksGhost c) :
    ∃ oldest points, IsOldest c.world.confirmed.tick (s.basisOf c) oldest ∧
      s.collected c = .ok (some points) ∧
      (∀ t, t ∈ points ↔
        t ∈ pointSet c.world.confirmed c.world.config.history (s.basisOf c)
          (s.heard c).inputs oldest) ∧
      points.Pairwise (fun t u =>
        c.world.confirmed.tick.distance u < c.world.confirmed.tick.distance t) ∧
      (∃ begins s' c', wantsEntry (s, c) = .ok (begins, s', c') ∧
        (begins = true ↔ c.world.confirmed.isPartial = true ∨ 2 ≤ points.length) ∧
        (begins = true → s'.start :: s'.ahead = points)) ∧
      (Quiet body → ∃ turn, run (.idle s) c body = .ok turn) ∧
      ∀ turn, run (.idle s) c body = .ok turn →
        (turn.found ≠ [] ↔ c.world.confirmed.isPartial = true ∨ 2 ≤ points.length) ∧
        (turn.found ≠ [] → ∃ start ahead whole rest, points = start :: ahead ∧
          turn.invocations = whole ++ rest ∧ Shape c.world.confirmed start whole rest ∧
          (∀ i, whole.head? = some i → i.tick.shiftBack i.batch = start) ∧
          (∀ p ∈ ahead, (whole.map Invocation.tick).count p = 1) ∧
          ∀ i ∈ whole, ∀ p ∈ points,
            ¬(0 < p.distance (i.tick.shiftBack i.batch) ∧ 0 < i.tick.distance p)) := by
  have hc := hb.onCircle hv
  have hfar := hn.noneFar hc
  obtain ⟨oldest, start, near, hplan, hroute, hentry⟩ := exists_near_entry hs hc hg hfar
  refine ⟨oldest, start :: near, hplan.isOldest, hplan.collected_eq, hplan.mem_iff,
    hplan.descending, hentry.exists_wantsEntry, fun hq => exists_run hq hs hb hc hg hfar,
    fun turn hrun => ⟨?_, fun hfound => ?_⟩⟩
  · rw [found_ne_nil_iff hs hc hroute hentry hrun, or_comm, List.length_cons, ← List.length_pos_iff]
    exact or_congr_right (by omega)
  · rcases run_cases (keeps_true body) trivial hs hc hroute hentry hrun with
      ⟨-, -, rfl⟩ | ⟨hmore, is, s₁, _, c₁, hreplay, hinv, -, -, -, -⟩
    · exact absurd rfl hfound
    · exact ⟨start, near, is, _, rfl, hinv, shape_of_replay hb hc hmore hreplay c₁,
        fun i hi => hreplay.tiles.head? hi, fun p hp => hreplay.count_eq_one hp,
        hreplay.not_inside hroute.onCircle fun p hp => hroute.distance_nonneg hp⟩

/-- Toward the middle of tick `11`, with state of tick `7` and input of tick `9`, there is a burst
that starts at tick `7` and covers the points `8` and `10`. -/
theorem burst_covers_points_client :
    let s : Prediction Float Float32 := initial.recorded [ofIndex 7] [ofIndex 9]
    let c := Scene.client Config.standard (Confirmed.inProgress (ofIndex 11) Fraction.half)
    s.collected c = .ok (some [ofIndex 7, ofIndex 8, ofIndex 10]) ∧
      (∃ s' c', wantsEntry (s, c) = .ok (true, s', c') ∧ s'.start = ofIndex 7 ∧
        s'.ahead = [ofIndex 8, ofIndex 10]) ∧
      ∃ turn whole rest, run (.idle s) c .ok = .ok turn ∧ turn.invocations = whole ++ rest ∧
        (∀ i, whole.head? = some i → i.tick.shiftBack i.batch = ofIndex 7) ∧
        ∀ p ∈ [ofIndex 8, ofIndex 10], (whole.map Invocation.tick).count p = 1 := by
  intro s c
  have hs : s.Sound := sound_recorded_ofIndex [7] [9]
  have hn : s.Close c := ⟨by decide, by decide⟩
  have hb : c.world.confirmed.Built := .inProgress (Or.inr (OnCircle.ofIndex 11)) _
  have hplan : s.Plan c (ofIndex 7) [ofIndex 7, ofIndex 8, ofIndex 10] :=
    (plan_iff hs (OnCircle.ofIndex 11) (by decide)).mpr (by decide +kernel)
  obtain ⟨oldest, points, -, hcollects, -, -, ⟨begins, s', c', hentry, hbegins, hahead⟩, hreturns,
    hcovers⟩ := burst_covers_points .ok hs hb (by decide) hn (by decide)
  obtain rfl := Option.some.inj (Except.ok.inj (hplan.collected_eq.symm.trans hcollects))
  obtain rfl : begins = true := hbegins.mpr (Or.inl (by decide))
  obtain ⟨hstart, hrest⟩ := List.cons_eq_cons.mp (hahead rfl)
  obtain ⟨turn, hrun⟩ := hreturns fun c => ⟨c, rfl, rfl, rfl⟩
  obtain ⟨hruns, hcovered⟩ := hcovers turn hrun
  obtain ⟨start, ahead, whole, rest, hsplit, hinv, -, hfirst, hcount, -⟩ :=
    hcovered (hruns.mpr (Or.inl (by decide)))
  obtain ⟨rfl, rfl⟩ := List.cons_eq_cons.mp hsplit
  exact ⟨hplan.collected_eq, ⟨s', c', hentry, hstart, hrest⟩, turn, whole, rest, hrun, hinv, hfirst,
    hcount⟩

end Metronome.Prediction
