import Metronome.Proofs.Prediction.Replay

/-!
# Batches that tile

The batches of a replay tile the way from its start to the target: each begins where the one before
ended, and together they cover exactly the distance (`Replay.tiles`, `Replay.cover_eq`). Every
replay point on the way is the end of a batch (`Replay.reaches`), and no batch runs over one
(`Replay.passes_none`).
-/

namespace Metronome

open Tick

variable {τ φ H : Type}

/-- The batches tile the way from one tick to another: each has a tick at least and begins where
the one before ended. -/
def Tiles : Tick → List (Invocation τ φ) → Tick → Prop
  | t, [], u => t = u
  | t, i :: is, u => 1 ≤ i.batch.toNat ∧ i.tick.shiftBack i.batch = t ∧ Tiles i.tick is u

/-- The ticks that batches cover together. -/
def cover : List (Invocation τ φ) → Nat
  | [] => 0
  | i :: is => i.batch.toNat + cover is

theorem tiles_append {is js : List (Invocation τ φ)} {t u : Tick} :
    Tiles t (is ++ js) u ↔ ∃ v, Tiles t is v ∧ Tiles v js u := by
  induction is generalizing t with
  | nil => simp [Tiles]
  | cons i is ih => simp [Tiles, ih, and_assoc]

theorem cover_append (is js : List (Invocation τ φ)) : cover (is ++ js) = cover is + cover js := by
  induction is with
  | nil => simp [cover]
  | cons i is ih =>
    simp only [List.cons_append, cover, ih]
    omega

theorem cover_filter_le (p : Invocation τ φ → Bool) (is : List (Invocation τ φ)) :
    cover (is.filter p) ≤ cover is := by
  induction is with
  | nil => exact Nat.le_refl 0
  | cons i is ih =>
    rw [List.filter_cons]
    split
    · exact Nat.add_le_add_left ih _
    · exact Nat.le_trans ih (Nat.le_add_left _ _)

/-- No more batches than ticks. -/
theorem Tiles.length_le {is : List (Invocation τ φ)} {t u : Tick} (h : Tiles t is u) :
    is.length ≤ cover is := by
  induction is generalizing t with
  | nil => exact Nat.le_refl 0
  | cons i is ih =>
    obtain ⟨hpos, -, hrest⟩ := h
    have := ih hrest
    simp only [List.length_cons, cover]
    omega

theorem Tiles.head? {is : List (Invocation τ φ)} {t u : Tick} (h : Tiles t is u)
    {i : Invocation τ φ} (hi : is.head? = some i) : i.tick.shiftBack i.batch = t := by
  cases is with
  | nil => simp at hi
  | cons j is =>
    obtain rfl : j = i := by simpa using hi
    exact h.2.1

theorem Tiles.getLast {is : List (Invocation τ φ)} {t u : Tick} (h : Tiles t is u) (hne : is ≠ []) :
    (is.getLast hne).tick = u := by
  induction is generalizing t with
  | nil => exact absurd rfl hne
  | cons i is ih =>
    obtain ⟨-, -, hrest⟩ := h
    by_cases hnil : is = []
    · subst hnil
      exact hrest
    · rw [List.getLast_cons hnil]
      exact ih hrest hnil

/-- A tick is one of those that a batch covers. -/
def Covers (i : Invocation τ φ) (t : Tick) : Prop :=
  0 < t.distance (i.tick.shiftBack i.batch) ∧ t.distance i.tick ≤ 0

instance (i : Invocation τ φ) (t : Tick) : Decidable (Covers i t) :=
  inferInstanceAs (Decidable (_ ∧ _))

/-- Batches that tile less than half the circle tile as many ticks as they cover. -/
theorem Tiles.distance_eq {is : List (Invocation τ φ)} {t u : Tick} (h : Tiles t is u)
    (hu : u.OnCircle) (hshort : cover is < 1073741824) : t.OnCircle ∧ u.distance t = cover is := by
  induction is generalizing t with
  | nil =>
    obtain rfl : t = u := h
    exact ⟨hu, by rw [distance_self]; rfl⟩
  | cons i is ih =>
    obtain ⟨-, rfl, hrest⟩ := h
    simp only [cover] at hshort ⊢
    obtain ⟨hic, hdist⟩ := ih hrest (by omega)
    refine ⟨hic.shiftBack i.batch, ?_⟩
    rw [distance_shiftBack_right hu hic (by omega), hdist]
    omega

/-- Every tick on the way is covered by exactly one batch, and no other tick is covered. -/
theorem Tiles.countP_covers {is : List (Invocation τ φ)} {t u : Tick} (h : Tiles t is u)
    (hu : u.OnCircle) (hshort : cover is < 1073741824) {x : Tick} (hx : x.OnCircle) :
    is.countP (fun i => decide (Covers i x)) =
      if 0 ≤ u.distance x ∧ u.distance x < cover is then 1 else 0 := by
  induction is generalizing t with
  | nil =>
    have hnone :
        ¬(0 ≤ u.distance x ∧ u.distance x < (cover ([] : List (Invocation τ φ)) : Int)) := by
      simp [cover]
    rw [if_neg hnone]
    rfl
  | cons i is ih =>
    obtain ⟨-, rfl, hrest⟩ := h
    have hsum : (cover (i :: is) : Int) = i.batch.toNat + cover is := Int.natCast_add _ _
    obtain ⟨hic, hdist⟩ := hrest.distance_eq hu (by omega)
    have hlt := distance_lt u x
    have hlow := le_distance u x
    have hback := distance_shiftBack_right (n := i.batch) hu hic (by omega)
    obtain ⟨k, hend⟩ := distance_triangle hu hx hic
    obtain ⟨l, hbegin⟩ := distance_triangle hu hx (hic.shiftBack i.batch)
    have hiff : Covers i x ↔ cover is ≤ u.distance x ∧ u.distance x < cover is + i.batch.toNat := by
      have := distance_lt x i.tick
      have := le_distance x i.tick
      have := distance_lt x (i.tick.shiftBack i.batch)
      have := le_distance x (i.tick.shiftBack i.batch)
      unfold Covers
      omega
    rw [List.countP_cons, ih hrest (by omega)]
    simp only [decide_eq_true_eq, hiff, hsum]
    split <;> split <;> split <;> omega

/-- A tick is covered exactly if it is on the way. -/
theorem Tiles.exists_covers_iff {is : List (Invocation τ φ)} {t u : Tick} (h : Tiles t is u)
    (hu : u.OnCircle) (hshort : cover is < 1073741824) {x : Tick} (hx : x.OnCircle) :
    (∃ i ∈ is, Covers i x) ↔ 0 ≤ u.distance x ∧ u.distance x < u.distance t := by
  have hcount := h.countP_covers hu hshort hx
  rw [(h.distance_eq hu hshort).2]
  have hsome : (∃ i ∈ is, Covers i x) ↔ 0 < is.countP fun i => decide (Covers i x) := by
    simp [List.countP_pos_iff]
  rw [hsome, hcount]
  split <;> simp [*]

/-- The places where batches begin or end lie on the way. -/
theorem Tiles.distance_bounds {is : List (Invocation τ φ)} {t u : Tick} (h : Tiles t is u)
    (hu : u.OnCircle) (hshort : cover is < 1073741824) :
    ∀ x ∈ t :: is.map Invocation.tick,
      x.OnCircle ∧ 0 ≤ u.distance x ∧ u.distance x ≤ u.distance t := by
  induction is generalizing t with
  | nil =>
    obtain rfl : t = u := h
    have hself := distance_self t
    intro x hx
    obtain rfl : x = t := by simpa using hx
    exact ⟨hu, by omega, Int.le_refl _⟩
  | cons i is ih =>
    obtain ⟨htc, hdist⟩ := h.distance_eq hu hshort
    obtain ⟨-, -, hrest⟩ := h
    simp only [cover] at hshort hdist
    obtain ⟨-, hnext⟩ := hrest.distance_eq hu (by omega)
    intro x hx
    rcases List.mem_cons.mp hx with rfl | hx
    · exact ⟨htc, by omega, Int.le_refl _⟩
    · obtain ⟨hxc, hlo, hhi⟩ := ih hrest (by omega) x hx
      exact ⟨hxc, hlo, by omega⟩

/-- A batch begins where the tiles do, or where another batch ends. -/
theorem Tiles.start_mem {is : List (Invocation τ φ)} {t u : Tick} (h : Tiles t is u) :
    ∀ i ∈ is, i.start ∈ t :: is.map Invocation.tick := by
  induction is generalizing t with
  | nil => simp
  | cons i is ih =>
    obtain ⟨-, hstart, hrest⟩ := h
    intro j hj
    rcases List.mem_cons.mp hj with rfl | hj
    · exact hstart ▸ List.mem_cons_self
    · exact List.mem_cons_of_mem t (ih hrest j hj)

/-- Batches begin before the end. -/
theorem Tiles.distance_start_pos {is : List (Invocation τ φ)} {t u : Tick} (h : Tiles t is u)
    (hu : u.OnCircle) (hshort : cover is < 1073741824) : ∀ i ∈ is, 0 < u.distance i.start := by
  induction is generalizing t with
  | nil => simp
  | cons i is ih =>
    obtain ⟨-, hdist⟩ := h.distance_eq hu hshort
    obtain ⟨hpos, hstart, hrest⟩ := h
    simp only [cover] at hshort hdist
    intro j hj
    rcases List.mem_cons.mp hj with rfl | hj
    · rw [Invocation.start, hstart]
      omega
    · exact ih hrest (by omega) j hj

/-- The batches that begin within `d` ticks of the end tile the way from the first place in that
range where a batch begins or ends. -/
theorem Tiles.exists_from {is : List (Invocation τ φ)} {t u : Tick} (h : Tiles t is u)
    (hu : u.OnCircle) (hshort : cover is < 1073741824) {d : Int} (hd : 0 ≤ d) :
    ∃ x ∈ t :: is.map Invocation.tick, u.distance x ≤ d ∧
      Tiles x (is.filter fun i => decide (u.distance i.start ≤ d)) u ∧
      ∀ y ∈ t :: is.map Invocation.tick, u.distance y ≤ d → u.distance y ≤ u.distance x := by
  induction is generalizing t with
  | nil =>
    obtain rfl : t = u := h
    exact ⟨t, List.mem_cons_self, by rw [distance_self]; exact hd, rfl,
      fun y hy _ => by simp_all⟩
  | cons i is ih =>
    by_cases hnear : u.distance t ≤ d
    · have hbounds := h.distance_bounds hu hshort
      have hall : (i :: is).filter (fun i => decide (u.distance i.start ≤ d)) = i :: is :=
        List.filter_eq_self.mpr fun j hj => by
          have := (hbounds j.start (h.start_mem j hj)).2.2
          exact decide_eq_true (by omega)
      rw [hall]
      exact ⟨t, List.mem_cons_self, hnear, h, fun y hy _ => (hbounds y hy).2.2⟩
    · obtain ⟨-, hstart, hrest⟩ := h
      simp only [cover] at hshort
      obtain ⟨x, hx, hxd, htiles, hmax⟩ := ih hrest (by omega)
      have hskip : ¬u.distance i.start ≤ d := by rwa [Invocation.start, hstart]
      refine ⟨x, List.mem_cons_of_mem t hx, hxd, ?_, fun y hy hyd => ?_⟩
      · rwa [List.filter_cons_of_neg (by simpa using hskip)]
      · rcases List.mem_cons.mp hy with rfl | hy
        · exact absurd hyd hnear
        · exact hmax y hy hyd

namespace Prediction

variable [Seconds τ] [Fraction φ] {P : Config τ φ → Prop} {near far : List Tick}
    {s s' : Prediction τ φ} {is : List (Invocation τ φ)}

namespace Replay

/-- A replay ends with the driver at its target. -/
theorem arrives (h : Replay P far near s is s') : OnRoute s' [] far := by
  induction h with
  | arrived on => exact on
  | hop _ _ _ ih => exact ih

/-- What a replay leaves as it was. -/
theorem frame (h : Replay P far near s is s') :
    s'.target = s.target ∧ s'.confirmed = s.confirmed ∧ s'.partialDone = s.partialDone ∧
      s'.history = s.history ∧ s'.baseline = s.baseline ∧ s'.savedBatch = s.savedBatch := by
  induction h with
  | arrived => exact ⟨rfl, rfl, rfl, rfl, rfl, rfl⟩
  | hop _ _ _ ih => exact ih

theorem tiles (h : Replay P far near s is s') : Tiles s.start is s.target := by
  induction h with
  | arrived on => exact on.start_eq_target
  | hop on _ _ ih => exact ⟨(on.nextLength_bounds _).1, shiftBack_shift _ _, ih⟩

theorem cover_eq (h : Replay P far near s is s') :
    (cover is : Int) = s.target.distance s.start := by
  induction h with
  | arrived on => simp [cover, on.start_eq_target]
  | @hop s s' point near config flags is on _ _ ih =>
    have hstop := on.target_distance_stop config
    have ih' : (cover is : Int) = s.target.distance (s.start.shift (s.nextLength config point)) :=
      ih
    have hbatch : (s.hopInvocation config flags point).batch = s.nextLength config point := rfl
    simp only [cover, hbatch]
    omega

/-- A replay covers less than half the circle. -/
theorem cover_lt (h : Replay P far near s is s') : cover is < 1073741824 := by
  have hcover := h.cover_eq
  have := distance_lt s.target s.start
  omega

theorem cover_filter_lt (h : Replay P far near s is s') (p : Invocation τ φ → Bool) :
    cover (is.filter p) < 1073741824 :=
  Nat.lt_of_le_of_lt (cover_filter_le p is) h.cover_lt

/-- Every batch ends between the start and the target. -/
theorem between (h : Replay P far near s is s') :
    ∀ i ∈ is, i.tick.OnCircle ∧ 0 ≤ s.target.distance i.tick ∧
      s.target.distance i.tick < s.target.distance s.start := by
  induction h with
  | arrived => simp
  | @hop s s' point near config flags is on _ hrest ih =>
    have hstop := on.target_distance_stop config
    have hpos := (on.nextLength_bounds config).1
    intro i hi
    rcases List.mem_cons.mp hi with rfl | hi
    · refine ⟨on.onCircle_start.shift _, (on.hop config flags).target_distance_start, ?_⟩
      show s.target.distance (s.start.shift (s.nextLength config point)) < _
      omega
    · obtain ⟨hon, hlo, hhi⟩ := ih i hi
      have hhi' : s.target.distance i.tick <
          s.target.distance (s.start.shift (s.nextLength config point)) := hhi
      exact ⟨hon, hlo, by omega⟩

/-- Later batches end nearer to the target. -/
theorem descending (h : Replay P far near s is s') :
    is.Pairwise fun i j => s.target.distance j.tick < s.target.distance i.tick := by
  induction h with
  | arrived => exact List.Pairwise.nil
  | hop _ _ hrest ih => exact List.pairwise_cons.mpr ⟨fun i hi => (hrest.between i hi).2.2, ih⟩

/-- Later batches end on newer ticks. -/
theorem ascending (h : Replay P far near s is s') :
    is.Pairwise fun i j => 0 < j.tick.distance i.tick := by
  have hg := h.arrives.onCircle_target
  rw [h.frame.1] at hg
  refine h.descending.imp_of_mem fun {i j} hi hj hlt => ?_
  obtain ⟨hic, hi0, -⟩ := h.between i hi
  obtain ⟨hjc, hj0, -⟩ := h.between j hj
  have := distance_lt s.target i.tick
  rw [distance_eq_sub hg hjc hic (by omega) (by omega)]
  omega

/-- The last batch, and no other, ends on the target. -/
theorem tick_eq_target_iff (h : Replay P far near s is s') {k : Nat} (hk : k < is.length) :
    is[k].tick = s.target ↔ k + 1 = is.length := by
  constructor
  · intro heq
    by_contra hlast
    have hlt :=
      (List.pairwise_iff_getElem.mp h.descending) k (k + 1) hk (by omega) (Nat.lt_succ_self k)
    have hlo := (h.between _ (List.getElem_mem (h := (by omega : k + 1 < is.length)))).2.1
    rw [heq, distance_self] at hlt
    omega
  · intro hlast
    have hne : is ≠ [] := List.ne_nil_of_length_pos (by omega)
    have hget := h.tiles.getLast hne
    rw [List.getLast_eq_getElem] at hget
    rw [← hget]
    congr 2
    omega

/-- Every near point is where a batch ends. -/
theorem reaches (h : Replay P far near s is s') : ∀ p ∈ near, ∃ i ∈ is, i.tick = p := by
  induction h with
  | arrived => simp
  | @hop s s' point near config flags is on _ _ ih =>
    intro p hp
    unfold remaining at ih
    split at ih
    · obtain ⟨i, hi, heq⟩ := ih p hp
      exact ⟨i, List.mem_cons_of_mem _ hi, heq⟩
    · rename_i hend
      rcases List.mem_cons.mp hp with rfl | hp
      · exact ⟨_, List.mem_cons_self, on.stop_eq_point hend⟩
      · obtain ⟨i, hi, heq⟩ := ih p hp
        exact ⟨i, List.mem_cons_of_mem _ hi, heq⟩

/-- No batch runs over the start or a near point: each of them is behind the batch, or
not before its end. -/
theorem passes_none (h : Replay P far near s is s') :
    ∀ i ∈ is, ∀ p ∈ s.start :: near, s.target.distance p ≤ s.target.distance i.tick ∨
      s.target.distance i.tick + i.batch.toNat ≤ s.target.distance p := by
  induction h with
  | arrived => simp
  | @hop s s' point near config flags is on _ hrest ih =>
    have hstop := on.target_distance_stop config
    obtain ⟨heq, -, -⟩ := on.point_distance
    obtain ⟨-, hle⟩ := on.nextLength_bounds config
    intro i hi p hp
    rcases List.mem_cons.mp hi with rfl | hi
    · show s.target.distance p ≤ s.target.distance (s.start.shift (s.nextLength config point)) ∨
        s.target.distance (s.start.shift (s.nextLength config point)) +
          (s.nextLength config point).toNat ≤ _
      rcases List.mem_cons.mp hp with rfl | hp
      · omega
      · have hdesc := (List.pairwise_cons.mp on.route.descending).2
        rcases List.mem_cons.mp hp with rfl | hp
        · omega
        · have := (List.pairwise_cons.mp hdesc).1 p hp
          omega
    · have hbetween := (hrest.between i hi).2.2
      have ih' : ∀ q ∈ s.start.shift (s.nextLength config point) :: s.remaining config point near,
          s.target.distance q ≤ s.target.distance i.tick ∨
            s.target.distance i.tick + i.batch.toNat ≤ s.target.distance q := ih i hi
      have hstart := ih' _ List.mem_cons_self
      have hbefore : s.target.distance i.tick <
          s.target.distance (s.start.shift (s.nextLength config point)) :=
        hbetween
      rcases List.mem_cons.mp hp with rfl | hp
      · omega
      · by_cases hend : ((s.nextLength config point).toNat : Int) < point.distance s.start
        · exact ih' p (by simpa only [remaining, if_pos hend] using List.mem_cons_of_mem _ hp)
        · rw [on.stop_eq_point hend] at ih'
          exact ih' p (by simpa only [remaining, if_neg hend] using hp)

/-! ## Flags -/

theorem fraction_eq_one (h : Replay P far near s is s') : ∀ i ∈ is, i.fraction = 1 := by
  induction h with
  | arrived => simp
  | hop _ _ _ ih =>
    intro i hi
    rcases List.mem_cons.mp hi with rfl | hi
    · rfl
    · exact ih i hi

/-- A batch is flagged as the last one if it ends on the confirmed tick, and as the last full one if
it ends on the target. -/
theorem contains_final (h : Replay P far near s is s') :
    ∀ i ∈ is, i.flags.contains StepFlags.final = (i.tick == s.confirmed.tick) ∧
      i.flags.contains StepFlags.finalFull = (i.tick == s.target) := by
  induction h with
  | arrived => simp
  | @hop s s' point near config flags is on _ _ ih =>
    intro i hi
    rcases List.mem_cons.mp hi with rfl | hi
    · obtain ⟨-, hfinal, hfull, -⟩ := s.contains_hop config flags point
      exact ⟨hfinal, hfull⟩
    · exact ih i hi

/-- Off the confirmed tick no batch is counted as the last one. -/
theorem finals_eq (h : Replay P far near s is s') (hoff : ∀ i ∈ is, i.tick ≠ s.confirmed.tick) :
    s'.finals = s.finals := by
  induction h with
  | arrived => rfl
  | @hop s s' point near config flags is on legal hrest ih =>
    have hflag := ((Replay.hop on legal hrest).contains_final _ List.mem_cons_self).1
    rw [ih fun i hi => hoff i (List.mem_cons_of_mem _ hi)]
    have hne : ((s.hopInvocation config flags point).tick == s.confirmed.tick) = false :=
      beq_eq_false_iff_ne.mpr (hoff _ List.mem_cons_self)
    rw [hne] at hflag
    simp [afterHop, counted, hflag, hopped]

/-- If the target is the confirmed tick, exactly one batch is counted as the last one. -/
theorem finals_eq_add_one (h : Replay P far near s is s') (hwhole : s.confirmed.tick = s.target)
    (hne : is ≠ []) : s'.finals = s.finals + 1 := by
  induction h with
  | arrived => exact absurd rfl hne
  | @hop s s' point near config flags is on legal hrest ih =>
    have hflag := ((Replay.hop on legal hrest).contains_final _ List.mem_cons_self).1
    by_cases hnil : is = []
    · subst hnil
      have hstop : (s.hopInvocation config flags point).tick = s.target := hrest.tiles
      rw [hstop, hwhole, beq_self_eq_true] at hflag
      rw [hrest.finals_eq (by simp)]
      simp [afterHop, counted, hflag, hopped]
    · obtain ⟨i, hi⟩ := List.exists_mem_of_ne_nil is hnil
      obtain ⟨-, hlo, hhi⟩ := hrest.between i hi
      -- a batch that others follow ends before the target
      have hbefore : (s.hopInvocation config flags point).tick ≠ s.confirmed.tick := by
        intro heq
        have hzero : s.target.distance (s.hopInvocation config flags point).tick = 0 := by
          rw [heq, hwhole, distance_self]
        have hhi' : s.target.distance i.tick <
            s.target.distance (s.hopInvocation config flags point).tick := hhi
        have hlo' : 0 ≤ s.target.distance i.tick := hlo
        omega
      rw [beq_eq_false_iff_ne.mpr hbefore] at hflag
      rw [ih hwhole hnil]
      simp [afterHop, counted, hflag, hopped]

/-- Invocations are counted, and the one that is counted first is flagged so. -/
theorem contains_first (h : Replay P far near s is s')
    (hroom : s.invocations.toNat + is.length < UInt32.size) :
    s'.invocations.toNat = s.invocations.toNat + is.length ∧
      ∀ k (hk : k < is.length), is[k].flags.contains StepFlags.first =
        decide (s.invocations.toNat + k = 0) := by
  induction h with
  | arrived => simp
  | @hop s s' point near config flags is on _ _ ih =>
    have h1 : (1 : UInt32).toNat = 1 := rfl
    have h0 : (0 : UInt32).toNat = 0 := rfl
    have hsize : UInt32.size = 4294967296 := rfl
    rw [List.length_cons] at hroom
    have hnext : (s.afterHop config flags point (near ++ far)).invocations.toNat =
        s.invocations.toNat + 1 := by
      show (s.invocations + 1).toNat = _
      rw [UInt32.toNat_add]
      omega
    obtain ⟨hcount, hflag⟩ := ih (by omega)
    refine ⟨by rw [List.length_cons]; omega, fun k hk => ?_⟩
    cases k with
    | zero =>
      rw [List.getElem_cons_zero, (s.contains_hop config flags point).2.2.2, Nat.add_zero,
        Bool.beq_eq_decide_eq, decide_eq_decide, ← UInt32.toNat_inj, h0]
    | succ k =>
      rw [List.getElem_cons_succ, hflag, decide_eq_decide]
      omega

end Replay

end Prediction

end Metronome
