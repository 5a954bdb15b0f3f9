import Metronome.Proofs.Neighbourhood
import Metronome.Proofs.TickSet

/-!
# The order of a set of ticks

A set of ticks is listed in no order of its own, and yet it has one order, oldest first, relative to
each reference tick of the circle. The ages of its members are distinct, so a list of them in
strictly descending age is the only one (`eq_of_descending`), and it does not matter how the members
are listed or in which order they were added (`ordered_canonically`). The list begins with the
oldest member.

That a list is descending in age tells how its members lie to the reference. How they lie to each
other it tells only where the circle is ordered: in the neighbourhood of the reference the later of
two members is the newer one.
-/

namespace Metronome.TickSet

open Tick

section Order

variable {r : Tick} {s : TickSet} {ts added : List Tick}

/-- No member lies further behind than the first one. -/
theorem head?_of_descending (h : ts.Pairwise fun t u => r.distance u < r.distance t) {o : Tick}
    (ho : o ∈ ts) (hold : ∀ t ∈ ts, r.distance t ≤ r.distance o) : ts.head? = some o := by
  cases ts with
  | nil => cases ho
  | cons t ts =>
    rcases List.mem_cons.mp ho with rfl | hrest
    · rfl
    · have hlt := List.rel_of_pairwise_cons h hrest
      have hle := hold t List.mem_cons_self
      omega

/-- The oldest member is the first one. -/
theorem oldest_eq_head? (hs : s.OnCircle) (hr : r.OnCircle)
    (h : ts.Pairwise fun t u => r.distance u < r.distance t) (hmem : ∀ t, t ∈ ts ↔ t ∈ s.ticks) :
    s.oldest r = .ok ts.head? := by
  cases ts with
  | nil =>
    have hnone : s.ticks = [] := List.eq_nil_iff_forall_not_mem.mpr fun t ht =>
      List.not_mem_nil ((hmem t).mpr ht)
    rw [oldest, hnone]
    rfl
  | cons t ts =>
    obtain ⟨o, ho, hos, hold⟩ := hs.exists_oldest hr ((hmem t).mp List.mem_cons_self)
    rw [ho, head?_of_descending h ((hmem o).mpr hos) fun u hu => hold u ((hmem u).mp hu)]

/-- Near the reference, later members are newer. -/
theorem newer_of_descending (hr : r.OnCircle) (hnear : ∀ t ∈ ts, t ∈ r.neighbourhood)
    (h : ts.Pairwise fun t u => r.distance u < r.distance t) :
    ts.Pairwise fun t u => u.isNewerThan t = .ok true := by
  have hself : r ∈ r.neighbourhood := ⟨hr, by simp [Near]⟩
  refine h.imp_of_mem fun {t u} ht hu hlt => ?_
  have htr := hnear t ht
  have hur := hnear u hu
  rw [isNewerThan_iff hur.1 htr.1, distance_of_mem hr hur htr]
  rw [distance_of_mem hr hself hur, distance_of_mem hr hself htr] at hlt
  omega

/-- However a set is listed, its members are the ticks that were added. -/
theorem mem_of_added (hadded : ∀ t ∈ added, t.OnCircle)
    (h : s.ticks.Perm (empty.insertAll added).ticks) (t : Tick) : t ∈ s.ticks ↔ t ∈ added := by
  rw [h.mem_iff, mem_insertAll fun u hu => (hadded u hu).isValid, ticks_empty]
  exact or_iff_right List.not_mem_nil

end Order

/-- Sets of ticks have one order. However the ticks of some indices are added to a set, in any order
and with any repetitions, and however the set is listed, relative to a tick its members come in one
and the same list: each of them once, in strictly descending age, the oldest member first. If all of
them are less than a quarter of the circle from the reference, each member is newer than all that
come before it. -/
theorem ordered_canonically (indices : List UInt32) (i : UInt32) :
    ∃ sorted : List Tick,
      (∀ t, t ∈ sorted ↔ t ∈ indices.map ofIndex) ∧ sorted.Nodup ∧
      sorted.Pairwise (fun t u => ∃ a b, (ofIndex i).since t = .ok a ∧
        (ofIndex i).since u = .ok b ∧ b < a) ∧
      (∀ added : List Tick, (∀ t, t ∈ added ↔ t ∈ indices.map ofIndex) →
        ∀ s : TickSet, s.ticks.Perm (empty.insertAll added).ticks →
          s.oldestFirst (ofIndex i) = .ok sorted ∧ s.oldest (ofIndex i) = .ok sorted.head?) ∧
      (sorted.head? = none ↔ indices = []) ∧
      ((∀ k ∈ indices, (ofIndex k).Near (ofIndex i)) →
        sorted.Pairwise fun t u => u.isNewerThan t = .ok true) := by
  have hr := OnCircle.ofIndex i
  have hcircle : ∀ t ∈ indices.map ofIndex, t.OnCircle :=
    List.forall_mem_map.mpr fun k _ => ⟨k, rfl⟩
  have hall : (empty.insertAll (indices.map ofIndex)).OnCircle := fun t ht =>
    hcircle t ((mem_of_added hcircle (.refl _) t).mp ht)
  obtain ⟨sorted, -, hlisted, hsorted⟩ := hall.exists_oldestFirst hr
  have hmem : ∀ t, t ∈ sorted ↔ t ∈ indices.map ofIndex := fun t =>
    (hlisted t).trans (mem_of_added hcircle (.refl _) t)
  refine ⟨sorted, hmem, nodup_of_descending hsorted, ?_, fun added hadded s hs => ?_, ?_,
    fun hnear => ?_⟩
  · refine hsorted.imp_of_mem fun {t u} ht hu hlt => ?_
    have htv := (hcircle t ((hmem t).mp ht)).isValid
    have huv := (hcircle u ((hmem u).mp hu)).isValid
    exact ⟨_, _, since_eq_ok hr.isValid htv, since_eq_ok hr.isValid huv, hlt⟩
  · have hmems : ∀ t, t ∈ s.ticks ↔ t ∈ indices.map ofIndex := fun t =>
      (mem_of_added (fun u hu => hcircle u ((hadded u).mp hu)) hs t).trans (hadded t)
    have hsc : s.OnCircle := fun t ht => hcircle t ((hmems t).mp ht)
    have hsame : ∀ t, t ∈ sorted ↔ t ∈ s.ticks := fun t => (hmem t).trans (hmems t).symm
    -- this listing of the members is sorted too, and there is only one sorted list of them
    obtain ⟨sorted', hok, hlisted', hsorted'⟩ := hsc.exists_oldestFirst hr
    obtain rfl : sorted' = sorted :=
      eq_of_descending hsorted' hsorted fun t => (hlisted' t).trans (hsame t).symm
    exact ⟨hok, oldest_eq_head? hsc hr hsorted hsame⟩
  · rw [List.head?_eq_none_iff, List.eq_nil_iff_forall_not_mem, ← List.map_eq_nil_iff,
      List.eq_nil_iff_forall_not_mem]
    exact forall_congr' fun t => not_congr (hmem t)
  · refine newer_of_descending hr (fun t ht => ⟨hcircle t ((hmem t).mp ht), ?_⟩) hsorted
    obtain ⟨k, hk, rfl⟩ := List.mem_map.mp ((hmem t).mp ht)
    exact hnear k hk

/-- Four ticks around the last tick before the first, added with repetitions and listed in another
order: relative to the first tick they come in the order of their age. -/
theorem ordered_canonically_wrap :
    let added := [3, 2147483647, 0, 3, 2147483645, 0].map ofIndex
    let s : TickSet := ⟨[0, 3, 2147483645, 2147483647].map ofIndex, by decide⟩
    let sorted := [2147483645, 2147483647, 0, 3].map ofIndex
    s.ticks.Perm (empty.insertAll added).ticks ∧
      s.oldestFirst (ofIndex 0) = .ok sorted ∧ s.oldest (ofIndex 0) = .ok sorted.head? ∧
      sorted.Pairwise fun t u => u.isNewerThan t = .ok true := by
  intro added s sorted
  have hperm : s.ticks.Perm (empty.insertAll added).ticks := by decide
  have hlisted : s.ticks.Perm sorted := by decide
  have hs : s.OnCircle := fun t ht => by
    obtain ⟨k, -, rfl⟩ := List.mem_map.mp ht
    exact ⟨k, rfl⟩
  obtain ⟨ts, hok, hmem, hdesc⟩ := hs.exists_oldestFirst (.ofIndex 0)
  obtain rfl : ts = sorted :=
    eq_of_descending hdesc (by decide) fun t => (hmem t).trans hlisted.mem_iff
  have hadded : ∀ t, t ∈ added ↔ t ∈ [3, 2147483647, 0, 2147483645].map ofIndex := fun t =>
    ⟨(by decide : ∀ u ∈ added, u ∈ [3, 2147483647, 0, 2147483645].map ofIndex) t,
      (by decide : ∀ u ∈ [3, 2147483647, 0, 2147483645].map ofIndex, u ∈ added) t⟩
  have hnear : ∀ k ∈ [3, 2147483647, 0, 2147483645], (ofIndex k).Near (ofIndex 0) := by
    simp only [List.forall_mem_cons]
    exact ⟨by decide, by decide, by decide, by decide, nofun⟩
  obtain ⟨sorted', -, -, -, hsame, -, hnewer⟩ :=
    ordered_canonically [3, 2147483647, 0, 2147483645] 0
  obtain ⟨hfirst, hold⟩ := hsame added hadded s hperm
  obtain rfl : sorted' = sorted := Except.ok.inj (hfirst.symm.trans hok)
  exact ⟨hperm, hok, hold, hnewer hnear⟩

end Metronome.TickSet
