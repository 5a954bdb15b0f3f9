import Metronome.TickSet
import Metronome.Proofs.Bracket
import Metronome.Proofs.Circle

/-!
# Sets of ticks on the circle

Among ticks on the circle every comparison has an answer, so the set operations that compare return.
The oldest member relative to a reference is one at the greatest distance behind it, and the sorted
list is strictly descending in that distance: no two members of the circle are equally far behind.
-/

namespace Metronome

namespace TickSet

/-- All members are on the circle. -/
def OnCircle (s : TickSet) : Prop :=
  ∀ t ∈ s.ticks, t.OnCircle

instance (s : TickSet) : Decidable s.OnCircle :=
  inferInstanceAs (Decidable (∀ t ∈ s.ticks, t.OnCircle))

theorem onCircle_empty : empty.OnCircle := by
  intro t ht
  simp at ht

/-- Only valid ticks are added. -/
theorem mem_insert_iff {s : TickSet} {t u : Tick} :
    u ∈ (s.insert t).ticks ↔ u ∈ s.ticks ∨ u.isValid = true ∧ u = t := by
  by_cases h : t.isValid = true
  · rw [mem_insert h, or_comm]
    refine or_congr_right ⟨fun heq => ⟨heq ▸ h, heq⟩, And.right⟩
  · rw [insert, if_neg h, iff_self_or]
    rintro ⟨hu, rfl⟩
    exact absurd hu h

theorem OnCircle.insert {s : TickSet} (hs : s.OnCircle) {t : Tick} (ht : t.OnCircle) :
    (s.insert t).OnCircle := by
  intro u hu
  rcases (mem_insert ht.isValid).mp hu with rfl | hu
  · exact ht
  · exact hs u hu

theorem OnCircle.insert_regular {s : TickSet} (hs : s.OnCircle) {t : Tick} (ht : t.Regular) :
    (s.insert t).OnCircle := by
  rcases ht with rfl | ht
  · simpa [TickSet.insert] using hs
  · exact hs.insert ht

theorem mem_insertAll {s : TickSet} {ts : List Tick} (hts : ∀ u ∈ ts, u.isValid = true) {t : Tick} :
    t ∈ (s.insertAll ts).ticks ↔ t ∈ s.ticks ∨ t ∈ ts := by
  unfold insertAll
  induction ts generalizing s with
  | nil => simp
  | cons u ts ih =>
    rw [List.foldl_cons, ih fun v hv => hts v (List.mem_cons_of_mem u hv),
      mem_insert (hts u List.mem_cons_self), List.mem_cons, or_assoc]
    exact or_left_comm

theorem OnCircle.insertAll {s : TickSet} (hs : s.OnCircle) {ts : List Tick}
    (hts : ∀ t ∈ ts, t.Regular) : (s.insertAll ts).OnCircle := by
  unfold TickSet.insertAll
  induction ts generalizing s with
  | nil => exact hs
  | cons t ts ih =>
    exact ih (hs.insert_regular (hts t List.mem_cons_self)) fun u hu =>
      hts u (List.mem_cons_of_mem t hu)

theorem mem_foldl_add {s : TickSet} {ts : List Tick} {t : Tick} :
    t ∈ (ts.foldl add s).ticks ↔ t ∈ s.ticks ∨ t ∈ ts := by
  induction ts generalizing s with
  | nil => simp
  | cons u ts ih =>
    rw [List.foldl_cons, ih, mem_add, List.mem_cons, or_assoc]
    exact or_left_comm

/-- The set of ticks that are listed once each has these members. -/
theorem ofList_perm {ts : List Tick} (h : ts.Nodup) : (ofList ts).ticks.Perm ts :=
  (List.perm_ext_iff_of_nodup (ofList ts).nodup h).mpr fun t => by
    rw [ofList, mem_foldl_add, ticks_empty]
    simp only [List.not_mem_nil, false_or]

theorem comparable_iff {s : TickSet} {r : Tick} :
    s.comparable r = true ↔ r.isValid = true ∧ ∀ t ∈ s.ticks, t.isValid = true := by
  simp only [comparable, Bool.and_eq_true, List.all_eq_true]

theorem OnCircle.comparable {s : TickSet} (hs : s.OnCircle) {r : Tick} (hr : r.OnCircle) :
    s.comparable r = true :=
  comparable_iff.mpr ⟨hr.isValid, fun t ht => (hs t ht).isValid⟩

/-! ## The oldest member -/

theorem older_eq_or (r a b : Tick) : older r a b = a ∨ older r a b = b := by
  unfold older
  split
  · exact Or.inr rfl
  · exact Or.inl rfl

theorem distance_le_older (r a b : Tick) :
    r.distance a ≤ r.distance (older r a b) ∧ r.distance b ≤ r.distance (older r a b) := by
  unfold older
  split <;> omega

/-- The fold over `older` picks a tick at the greatest distance. -/
theorem foldl_older (r : Tick) : ∀ (ts : List Tick) (t : Tick),
    ts.foldl (older r) t ∈ t :: ts ∧ ∀ u ∈ t :: ts, r.distance u ≤ r.distance (ts.foldl (older r) t)
  | [], t => by simp
  | u :: ts, t => by
    obtain ⟨hmem, hle⟩ := foldl_older r ts (older r t u)
    obtain ⟨ht, hu⟩ := distance_le_older r t u
    rw [List.foldl_cons]
    refine ⟨?_, fun v hv => ?_⟩
    · rcases List.mem_cons.mp hmem with h | h
      · rw [h]
        rcases older_eq_or r t u with h | h <;> simp [h]
      · exact List.mem_cons_of_mem t (List.mem_cons_of_mem u h)
    · have hold := hle _ List.mem_cons_self
      rcases List.mem_cons.mp hv with rfl | hv
      · omega
      rcases List.mem_cons.mp hv with rfl | hv
      · omega
      · exact hle v (List.mem_cons_of_mem _ hv)

/-- A set with a member has an oldest one. -/
theorem OnCircle.exists_oldest {s : TickSet} (hs : s.OnCircle) {r : Tick} (hr : r.OnCircle)
    {t : Tick} (ht : t ∈ s.ticks) :
    ∃ o, s.oldest r = .ok (some o) ∧ o ∈ s.ticks ∧ ∀ u ∈ s.ticks, r.distance u ≤ r.distance o := by
  unfold oldest
  cases hts : s.ticks with
  | nil => simp [hts] at ht
  | cons u ts =>
    obtain ⟨hmem, hle⟩ := foldl_older r ts u
    exact ⟨ts.foldl (older r) u, by simp [hs.comparable hr], hmem, hle⟩

/-! ## The members in order -/

/-- The members come oldest first, each strictly older than the next. -/
theorem OnCircle.exists_oldestFirst {s : TickSet} (hs : s.OnCircle) {r : Tick} (hr : r.OnCircle) :
    ∃ ts, s.oldestFirst r = .ok ts ∧ (∀ t, t ∈ ts ↔ t ∈ s.ticks) ∧
      ts.Pairwise fun t u => r.distance u < r.distance t := by
  unfold oldestFirst
  split
  · rename_i hsize
    refine ⟨s.ticks, rfl, fun t => Iff.rfl, ?_⟩
    match hts : s.ticks with
    | [] => exact List.Pairwise.nil
    | [t] => exact List.pairwise_singleton _ t
    | t :: u :: ts =>
      simp only [size, hts, List.length_cons] at hsize
      omega
  · rw [if_pos (hs.comparable hr)]
    let le := fun t u : Tick => decide (r.distance u ≤ r.distance t)
    have hsorted : (s.ticks.mergeSort le).Pairwise (fun t u => le t u = true) :=
      List.pairwise_mergeSort (by intro a b c; simp only [le, decide_eq_true_eq]; omega)
        (by intro a b; simp only [le, Bool.or_eq_true, decide_eq_true_eq]; omega) s.ticks
    have hperm := List.mergeSort_perm s.ticks le
    have hdistinct : (s.ticks.mergeSort le).Nodup := hperm.nodup_iff.mpr s.nodup
    refine ⟨s.ticks.mergeSort le, rfl, fun t => List.mem_mergeSort, ?_⟩
    refine (hsorted.and hdistinct).imp_of_mem fun ht hu h => ?_
    obtain ⟨hle, hne⟩ := h
    -- equally far behind would be equal
    have hdist : r.distance _ ≠ r.distance _ := fun heq => hne
      (Tick.eq_of_distance_eq hr (hs _ (List.mem_mergeSort.mp ht))
        (hs _ (List.mem_mergeSort.mp hu)) heq)
    simp only [le, decide_eq_true_eq] at hle
    omega

theorem nodup_of_descending {r : Tick} {ts : List Tick}
    (h : ts.Pairwise fun t u => r.distance u < r.distance t) : ts.Nodup :=
  h.imp fun hlt heq => by
    subst heq
    exact absurd hlt (Int.lt_irrefl _)

/-- Ticks in order of their distance are listed in one way only. -/
theorem eq_of_descending {r : Tick} {ts ts' : List Tick}
    (h : ts.Pairwise fun t u => r.distance u < r.distance t)
    (h' : ts'.Pairwise fun t u => r.distance u < r.distance t) (hmem : ∀ t, t ∈ ts ↔ t ∈ ts') :
    ts = ts' := by
  have hperm : ts.Perm ts' :=
    (List.perm_ext_iff_of_nodup (nodup_of_descending h) (nodup_of_descending h')).mpr hmem
  exact hperm.eq_of_pairwise (fun _ _ _ _ hlt hgt => absurd hlt (Int.lt_asymm hgt)) h h'

end TickSet

/-- Both sets of a history hold ticks on the circle. -/
structure History.OnCircle (h : History) : Prop where
  applied : h.applied.OnCircle
  inputs : h.inputs.OnCircle

theorem History.onCircle_empty : History.empty.OnCircle :=
  ⟨TickSet.onCircle_empty, TickSet.onCircle_empty⟩

end Metronome
