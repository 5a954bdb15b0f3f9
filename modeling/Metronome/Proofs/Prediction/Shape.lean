import Metronome.Proofs.Prediction.Reachable

/-!
# The shape of a burst

A burst is a run of whole batches that tile the way to the target, and one invocation for the part
of a tick if the confirmed tick is under way. It ends on the confirmed position, and its flags mark
the first invocation, the last one, and the last whole one.
-/

namespace Metronome.Prediction

open Tick

variable {τ φ H : Type}

/-- The shape of a burst that starts at a tick: its whole batches, and the rest. -/
structure Shape [Fraction φ] (c : Confirmed φ) (start : Tick)
    (whole rest : List (Invocation τ φ)) : Prop where
  /-- Batches are of whole ticks. -/
  fraction : ∀ i ∈ whole, i.fraction = 1
  /-- Each batch has a tick at least and begins where the one before ended; the last one
  ends on the target. -/
  tiles : Tiles start whole c.target
  /-- Together they cover the way to the target once. -/
  cover_eq : (cover whole : Int) = c.target.distance start
  /-- Every invocation ends on a newer tick than those before it. -/
  ascending : (whole ++ rest).Pairwise fun i j => 0 < j.tick.distance i.tick
  /-- A tick under way adds one invocation, for its part of a tick; a completed one adds none. -/
  rest_eq : rest.map (fun i => (i.tick, i.fraction, i.batch)) =
    if c.isPartial then [(c.tick, c.fraction, 1)] else []
  /-- The last invocation is at the confirmed position. -/
  ends : ∃ i, (whole ++ rest).getLast? = some i ∧ i.tick = c.tick ∧ i.fraction = c.fraction
  /-- Exactly the first invocation is flagged as the first. -/
  first : ∀ k (hk : k < (whole ++ rest).length),
    (whole ++ rest)[k].flags.contains StepFlags.first = decide (k = 0)
  /-- Exactly the last invocation is flagged as the last. -/
  final : ∀ k (hk : k < (whole ++ rest).length),
    (whole ++ rest)[k].flags.contains StepFlags.final = decide (k + 1 = (whole ++ rest).length)
  /-- Exactly the last whole batch is flagged as the last full one. -/
  finalFull : ∀ k (hk : k < (whole ++ rest).length),
    (whole ++ rest)[k].flags.contains StepFlags.finalFull = decide (k + 1 = whole.length)

/-- A flag at each place of a list, and at the place after it. -/
theorem contains_snoc {bits : UInt8} {value : Nat → Bool} {is : List (Invocation τ φ)}
    {i : Invocation τ φ} (his : ∀ k (hk : k < is.length), is[k].flags.contains bits = value k)
    (hi : i.flags.contains bits = value is.length) :
    ∀ k (hk : k < (is ++ [i]).length), (is ++ [i])[k].flags.contains bits = value k := by
  intro k hk
  by_cases hlt : k < is.length
  · rw [List.getElem_append_left hlt]
    exact his k hlt
  · rw [List.length_append, List.length_singleton] at hk
    obtain rfl : k = is.length := by omega
    simpa using hi

variable [Seconds τ] [Fraction φ] [Clock τ φ] {s : Prediction τ φ} {c : Scene τ φ H}

section Parts

variable {P : Config τ φ → Prop} {start : Tick} {near : List Tick} {is : List (Invocation τ φ)}
  {s₁ : Prediction τ φ}

/-- The shape of a burst toward a tick under way. -/
theorem shape_of_isPartial (hc : c.world.confirmed.tick.OnCircle)
    (hpart : c.world.confirmed.isPartial = true)
    (h : Replay P [] near (s.entered c start near) is s₁) (c₁ : Scene τ φ H) :
    Shape c.world.confirmed start is (s₁.trailings c₁) := by
  have hg := Confirmed.onCircle_target hc
  have hlag := Confirmed.distance_target hc
  have hone : c.world.confirmed.lag = 1 := by simp [Confirmed.lag, hpart]
  have hconfirmed := h.frame_entered.2.1
  have hne := tick_ne_confirmed hc hpart h
  have hcover := h.cover_eq
  have hlen := h.tiles.length_le
  have hlt := distance_lt (s.entered c start near).target (s.entered c start near).start
  have hsize : UInt32.size = 4294967296 := rfl
  obtain ⟨hfinal, hfull, -, hfirst⟩ := contains_trailing s₁ c₁
  have hzero : (s.entered c start near).invocations.toNat = 0 := rfl
  obtain ⟨hcount, hflag⟩ := h.contains_first (by omega)
  have hrest : s₁.trailings c₁ = [s₁.trailing c₁] := by simp [trailings, hconfirmed, hpart]
  rw [hrest]
  refine ⟨h.fraction_eq_one, h.tiles, hcover, ?_, ?_, ?_, ?_, ?_, ?_⟩
  · refine List.pairwise_append.mpr ⟨h.ascending, List.pairwise_singleton _ _, fun i hi j hj => ?_⟩
    obtain rfl := List.mem_singleton.mp hj
    obtain ⟨hic, hlo, hhi⟩ := h.between i hi
    have hlo : 0 ≤ c.world.confirmed.target.distance i.tick := hlo
    have hhi : c.world.confirmed.target.distance i.tick < c.world.confirmed.target.distance start :=
      hhi
    have hlt : c.world.confirmed.target.distance start < 1073741824 := hlt
    have htick : (s₁.trailing c₁).tick = c.world.confirmed.tick :=
      congrArg Confirmed.tick hconfirmed
    obtain ⟨k, hk⟩ := distance_triangle hc hg hic
    have := distance_lt c.world.confirmed.tick i.tick
    have := le_distance c.world.confirmed.tick i.tick
    rw [htick]
    omega
  · rw [if_pos hpart, ← hconfirmed]
    rfl
  · exact ⟨s₁.trailing c₁, by simp, congrArg Confirmed.tick hconfirmed,
      congrArg Confirmed.fraction hconfirmed⟩
  · refine contains_snoc (fun k hk => ?_) ?_
    · rw [hflag k hk, hzero, Nat.zero_add]
    · rw [hfirst, Bool.beq_eq_decide_eq, decide_eq_decide, ← UInt32.toNat_inj, hcount, hzero,
        Nat.zero_add]
      exact Iff.rfl
  · refine contains_snoc (fun k hk => ?_) ?_
    · have hoff := hne _ (List.getElem_mem hk)
      rw [(h.contains_final _ (List.getElem_mem hk)).1, List.length_append, List.length_singleton]
      have hlast : ¬k + 1 = is.length + 1 := by omega
      rw [decide_eq_false hlast]
      exact beq_eq_false_iff_ne.mpr hoff
    · rw [hfinal, List.length_append, List.length_singleton]
      simp
  · refine contains_snoc (fun k hk => ?_) ?_
    · rw [(h.contains_final _ (List.getElem_mem hk)).2, Bool.beq_eq_decide_eq, decide_eq_decide]
      exact h.tick_eq_target_iff hk
    · rw [hfull]
      simp

variable [LawfulFraction φ]

/-- The shape of a burst toward a completed tick. -/
theorem shape_of_not_isPartial (hb : c.world.confirmed.Built)
    (hwhole : c.world.confirmed.isPartial = false) (hne : is ≠ [])
    (h : Replay P [] near (s.entered c start near) is s₁) (c₁ : Scene τ φ H) :
    Shape c.world.confirmed start is (s₁.trailings c₁) := by
  have hconfirmed := h.frame_entered.2.1
  have hcover := h.cover_eq
  have hlen := h.tiles.length_le
  have hlt := distance_lt (s.entered c start near).target (s.entered c start near).start
  have hsize : UInt32.size = 4294967296 := rfl
  have hzero : (s.entered c start near).invocations.toNat = 0 := rfl
  obtain ⟨-, hflag⟩ := h.contains_first (by omega)
  have htarget := Confirmed.target_of_not_isPartial hwhole
  have hrest : s₁.trailings c₁ = [] := by simp [trailings, hconfirmed, hwhole]
  rw [hrest]
  refine ⟨h.fraction_eq_one, h.tiles, hcover, by simpa using h.ascending, by simp [hwhole],
    ?_, ?_, ?_, ?_⟩
  · refine ⟨is.getLast hne, ?_, (h.tiles.getLast hne).trans htarget, ?_⟩
    · rw [List.append_nil, List.getLast?_eq_some_getLast hne]
    · rw [h.fraction_eq_one _ (List.getLast_mem hne), hb.isPartial_eq_false_iff.mp hwhole]
  · simp only [List.append_nil]
    intro k hk
    rw [hflag k hk, hzero, Nat.zero_add]
  · simp only [List.append_nil]
    intro k hk
    have heq : (s.entered c start near).confirmed.tick = (s.entered c start near).target :=
      htarget.symm
    rw [(h.contains_final _ (List.getElem_mem hk)).1, heq, Bool.beq_eq_decide_eq, decide_eq_decide]
    exact h.tick_eq_target_iff hk
  · simp only [List.append_nil]
    intro k hk
    rw [(h.contains_final _ (List.getElem_mem hk)).2, Bool.beq_eq_decide_eq, decide_eq_decide]
    exact h.tick_eq_target_iff hk

/-- A replay with what follows it has the shape of a burst. -/
theorem shape_of_replay (hb : c.world.confirmed.Built) (hc : c.world.confirmed.tick.OnCircle)
    (hmore : near ≠ [] ∨ c.world.confirmed.isPartial = true)
    (h : Replay P [] near (s.entered c start near) is s₁) (c₁ : Scene τ φ H) :
    Shape c.world.confirmed start is (s₁.trailings c₁) := by
  by_cases hpart : c.world.confirmed.isPartial = true
  · exact shape_of_isPartial hc hpart h c₁
  · have hnear := hmore.resolve_right hpart
    obtain ⟨p, hp⟩ := List.exists_mem_of_ne_nil near hnear
    obtain ⟨i, hi, -⟩ := h.reaches p hp
    exact shape_of_not_isPartial hb (by simpa using hpart) (List.ne_nil_of_mem hi) h c₁

end Parts

variable [LawfulFraction φ] [Host H τ]

/-- Every burst near its confirmed tick has its shape, and with a quiet body every frame returns. -/
theorem burst_has_shape (body : Scene τ φ H → Except Fault (Scene τ φ H)) (hs : s.Sound)
    (hb : c.world.confirmed.Built) (hn : s.Close c) :
    (Quiet body → ∃ turn, run (.idle s) c body = .ok turn) ∧
      ∀ turn, run (.idle s) c body = .ok turn → turn.found ≠ [] →
        ∃ start whole rest, turn.invocations = whole ++ rest ∧
        turn.count = turn.invocations.length ∧
          Shape c.world.confirmed start whole rest := by
  by_cases hv : c.world.confirmed.isValid = true
  · have hc := hb.onCircle hv
    by_cases hg : LacksGhost c
    · have hrun := run_of_lacksGhost (s := s) hv hg body
      refine ⟨fun _ => ⟨_, hrun⟩, fun turn hturn hfound => ?_⟩
      rw [hrun] at hturn
      cases hturn
      exact absurd rfl hfound
    · refine ⟨fun hq => exists_run hq hs hb hc hg (hn.noneFar hc), fun turn hturn hfound => ?_⟩
      obtain ⟨-, start, near, -, hroute, hentry⟩ := exists_near_entry hs hc hg (hn.noneFar hc)
      rcases run_cases (keeps_true body) trivial hs hc hroute hentry hturn with
        ⟨-, -, rfl⟩ | ⟨hmore, is, s₁, _, c₁, hreplay, hinv, hcount, -, -, -⟩
      · exact absurd rfl hfound
      · exact ⟨start, is, _, hinv, hcount, shape_of_replay hb hc hmore hreplay c₁⟩
  · have hrun := run_of_not_isValid (s := s) (by simpa using hv) body
    refine ⟨fun _ => ⟨_, hrun⟩, fun turn hturn hfound => ?_⟩
    rw [hrun] at hturn
    cases hturn
    exact absurd rfl hfound

/-- Toward the middle of tick `11`, with state of tick `7` and input of tick `9`, there is a
burst of this shape. -/
theorem burst_has_shape_client :
    ∃ turn, run (.idle (initial.recorded [ofIndex 7] [ofIndex 9]))
        (Scene.client Config.standard (Confirmed.inProgress (ofIndex 11) Fraction.half)) .ok =
          .ok turn ∧
      turn.found ≠ [] ∧ ∃ start whole rest, turn.invocations = whole ++ rest ∧
        Shape (Confirmed.inProgress (ofIndex 11) Fraction.half) start whole rest := by
  have hs : (initial.recorded [ofIndex 7] [ofIndex 9] : Prediction Float Float32).Sound :=
    sound_initial.recorded (by simp [Regular, OnCircle.ofIndex])
      (by simp [Regular, OnCircle.ofIndex])
  have hc := OnCircle.ofIndex 11
  have hn : (initial.recorded [ofIndex 7] [ofIndex 9]).Close
      (Scene.client Config.standard (Confirmed.inProgress (ofIndex 11) Fraction.half)) :=
        ⟨by decide, by decide⟩
  obtain ⟨hreturns, hshape⟩ := burst_has_shape .ok hs (.inProgress (Or.inr hc) _) hn
  obtain ⟨turn, hrun⟩ := hreturns fun c => ⟨c, rfl, rfl, rfl⟩
  obtain ⟨-, _, _, -, hroute, hentry⟩ := exists_near_entry hs hc (by decide) (hn.noneFar hc)
  have hfound := (found_ne_nil_iff hs hc hroute hentry hrun).mpr (Or.inr (by decide))
  obtain ⟨start, whole, rest, hinv, -, h⟩ := hshape turn hrun hfound
  exact ⟨turn, hrun, hfound, start, whole, rest, hinv, h⟩

end Metronome.Prediction
