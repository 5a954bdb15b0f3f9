import Metronome.Ghosts
import Metronome.Proofs.Rotation.Tick
import Metronome.Proofs.TickSet

/-!
# Rotated sets of ticks

A set of valid ticks is rotated tick by tick. What is read off a set relative to a reference tick,
the oldest member and the list from the oldest on, goes along with a rotation of both
(`Rotated.oldest`, `Rotated.oldestFirst`). Predicted entities join a replay from rotated ticks as
they do from the ticks (`Ghosts.Rotated.enableFrom`).
-/

namespace Metronome

variable {n : UInt32}

/-- The second list is the first one, with its ticks, all of them valid, moved `n` steps. -/
structure Tick.AllRotated (n : UInt32) (ts ts' : List Tick) : Prop where
  onCircle : ∀ t ∈ ts, t.OnCircle
  eq_map : ts' = ts.map (Tick.shift · n)

namespace Tick.AllRotated

variable {ts ts' : List Tick}

theorem nil : AllRotated n [] [] :=
  ⟨by simp, rfl⟩

theorem of_forall₂ (h : List.Forall₂ (Moved n) ts ts') : AllRotated n ts ts' := by
  induction h with
  | nil => exact .nil
  | cons ht _ ih =>
    obtain ⟨hc, rfl⟩ := ht
    obtain ⟨hcs, rfl⟩ := ih
    exact ⟨List.forall_mem_cons.mpr ⟨hc, hcs⟩, rfl⟩

theorem forall₂ (h : AllRotated n ts ts') : List.Forall₂ (Moved n) ts ts' := by
  obtain ⟨hc, rfl⟩ := h
  exact List.forall₂_map_right_iff.mpr (List.forall₂_same.mpr fun t ht => ⟨hc t ht, rfl⟩)

theorem cons {t t' : Tick} (ht : t.Moved n t') (h : AllRotated n ts ts') :
    AllRotated n (t :: ts) (t' :: ts') :=
  .of_forall₂ (.cons ht h.forall₂)

theorem isEmpty_eq (h : AllRotated n ts ts') : ts'.isEmpty = ts.isEmpty := by
  obtain ⟨-, rfl⟩ := h
  exact List.isEmpty_map

end Tick.AllRotated

/-- The second set is the first one, with its ticks moved. -/
def TickSet.Rotated (n : UInt32) (s s' : TickSet) : Prop :=
  Tick.AllRotated n s.ticks s'.ticks

namespace TickSet

open Tick

theorem rotated_empty : empty.Rotated n empty :=
  .nil

variable {s s' : TickSet} {t t' : Tick}

theorem Rotated.mem_iff (h : s.Rotated n s') {t : Tick} :
    t.shift n ∈ s'.ticks ↔ t ∈ s.ticks := by
  rw [h.eq_map, List.mem_map]
  constructor
  · rintro ⟨u, hu, heq⟩
    exact shift_inj.mp heq ▸ hu
  · exact fun ht => ⟨t, ht, rfl⟩

theorem Rotated.insert (h : s.Rotated n s') (ht : t.Rotated n t') :
    (s.insert t).Rotated n (s'.insert t') := by
  unfold TickSet.insert
  rw [ht.isValid_eq]
  split
  · obtain ⟨hc, rfl⟩ := ht.moved ‹_›
    by_cases hmem : t ∈ s.ticks
    · rw [add, dif_pos hmem, add, dif_pos (h.mem_iff.mpr hmem)]
      exact h
    · rw [add, dif_neg hmem, add, dif_neg (mt h.mem_iff.mp hmem)]
      refine ⟨List.forall_mem_cons.mpr ⟨hc, h.onCircle⟩, ?_⟩
      rw [List.map_cons, ← h.eq_map]
  · exact h

theorem Rotated.insertAll (h : s.Rotated n s') {ts ts' : List Tick} (hts : AllRotated n ts ts') :
    (s.insertAll ts).Rotated n (s'.insertAll ts') := by
  obtain ⟨hc, rfl⟩ := hts
  induction ts generalizing s s' with
  | nil => exact h
  | cons t ts ih =>
    obtain ⟨ht, hts⟩ := List.forall_mem_cons.mp hc
    exact ih (h.insert (.onCircle ht)) hts

theorem Rotated.comparable_eq (h : s.Rotated n s') (ht : t.Rotated n t') :
    s'.comparable t' = s.comparable t := by
  have hall : ∀ {s : TickSet}, (∀ t ∈ s.ticks, t.OnCircle) → s.ticks.all Tick.isValid = true :=
    fun hc => List.all_eq_true.mpr fun t ht => (hc t ht).isValid
  have hc' : ∀ t ∈ s'.ticks, t.OnCircle := by
    rw [h.eq_map]
    exact List.forall_mem_map.mpr fun t ht => (h.onCircle t ht).shift n
  rw [comparable, comparable, ht.isValid_eq, hall h.onCircle, hall hc']

/-- The older of two ticks, seen from a third one. -/
theorem older_shift (reference a b : Tick) :
    older (reference.shift n) (a.shift n) (b.shift n) = (older reference a b).shift n := by
  simp only [older, distance_shift_shift]
  split <;> rfl

theorem Rotated.oldest (h : s.Rotated n s') (ht : t.Rotated n t') :
    Alike n (Option.Rel (Tick.Rotated n)) (s.oldest t) (s'.oldest t') := by
  unfold TickSet.oldest
  rw [h.comparable_eq ht, h.eq_map]
  cases hticks : s.ticks with
  | nil => exact .ok .none
  | cons u us =>
    refine .ite Iff.rfl (fun hv => .ok (.some ?_)) fun _ => .fails _
    obtain ⟨-, rfl⟩ := ht.moved ((Bool.and_eq_true _ _).mp hv).1
    have hfold : (us.map (shift · n)).foldl (older (t.shift n)) (u.shift n) =
        (us.foldl (older t) u).shift n := by
      rw [List.foldl_map]
      exact List.foldl_hom (shift · n) fun a b => older_shift t a b
    rw [hfold]
    exact .onCircle (h.onCircle _ (hticks ▸ (foldl_older t us u).1))

theorem Rotated.oldestFirst (h : s.Rotated n s') (ht : t.Rotated n t') :
    Alike n (AllRotated n) (s.oldestFirst t) (s'.oldestFirst t') := by
  unfold TickSet.oldestFirst size
  rw [h.comparable_eq ht, h.eq_map, List.length_map]
  refine .ite Iff.rfl (fun _ => .ok ⟨h.onCircle, rfl⟩) fun _ => ?_
  refine .ite Iff.rfl (fun hv => .ok ⟨fun u hu => ?_, ?_⟩) fun _ => .fails _
  · exact h.onCircle u (List.mem_mergeSort.mp hu)
  · obtain ⟨-, rfl⟩ := ht.moved ((Bool.and_eq_true _ _).mp hv).1
    exact (List.map_mergeSort fun a _ b _ => by simp only [distance_shift_shift]).symm

end TickSet

/-- The second history is the first one, with the ticks of both sets moved. -/
structure History.Rotated (n : UInt32) (h h' : History) : Prop where
  applied : h.applied.Rotated n h'.applied
  inputs : h.inputs.Rotated n h'.inputs

namespace History

theorem rotated_empty : empty.Rotated n empty :=
  ⟨TickSet.rotated_empty, TickSet.rotated_empty⟩

variable {h h' : History} {t t' : Tick}

theorem Rotated.recordApplied (hh : h.Rotated n h') (ht : t.Rotated n t') :
    (h.recordApplied t).Rotated n (h'.recordApplied t') :=
  ⟨hh.applied.insert ht, hh.inputs⟩

theorem Rotated.recordInput (hh : h.Rotated n h') (ht : t.Rotated n t') :
    (h.recordInput t).Rotated n (h'.recordInput t') :=
  ⟨hh.applied, hh.inputs.insert ht⟩

end History

/-! ## Predicted entities -/

/-- The second entity is the first one, with the tick of its state rotated. -/
inductive Ghost.Rotated (n : UInt32) (g : Ghost) : Ghost → Prop
  /-- Whether it takes part is kept. -/
  | intro {base : Tick} (hbase : g.base.Rotated n base) : Rotated n g { g with base }

namespace Ghost.Rotated

variable {g g' : Ghost} {t t' : Tick}

theorem joinsAt (hg : g.Rotated n g') (ht : t.Rotated n t') :
    Alike n Eq (g.joinsAt t) (g'.joinsAt t') := by
  obtain ⟨hbase⟩ := hg
  unfold Ghost.joinsAt
  rw [hbase.isValid_eq]
  refine .ite Iff.rfl (fun _ => ?_) fun _ => .ok rfl
  exact (hbase.isNewerThan ht).bind fun _ _ heq => .ok (by rw [heq])

theorem enableFrom (hg : g.Rotated n g') (ht : t.Rotated n t') :
    Alike n (Rotated n) (g.enableFrom t) (g'.enableFrom t') := by
  refine (hg.joinsAt ht).bind fun joins _ heq => ?_
  obtain ⟨hbase⟩ := hg
  subst heq
  exact .ite Iff.rfl (fun _ => .ok (.intro hbase)) fun _ => .ok (.intro hbase)

end Ghost.Rotated

/-- The second registry holds the same entities, with the ticks of their states rotated. -/
def Ghosts.Rotated (n : UInt32) (g g' : Ghosts) : Prop :=
  List.Forall₂ (fun e e' => e'.1 = e.1 ∧ e.2.Rotated n e'.2) g.entries g'.entries

namespace Ghosts

theorem rotated_empty : empty.Rotated n empty :=
  List.Forall₂.nil

namespace Rotated

variable {g g' : Ghosts} {t t' : Tick}

theorem isEmpty_eq (h : g.Rotated n g') : g'.isEmpty = g.isEmpty := by
  obtain ⟨entries⟩ := g
  obtain ⟨entries'⟩ := g'
  cases h <;> rfl

theorem isNone_get?_eq (h : g.Rotated n g') (id : EntityId) :
    (g'.get? id).isNone = (g.get? id).isNone := by
  unfold get?
  unfold Rotated at h
  generalize g.entries = entries at h
  generalize g'.entries = entries' at h
  induction h with
  | nil => rfl
  | cons he _ ih =>
    rw [List.lookup_cons, List.lookup_cons, he.1]
    cases id == _ with
    | false => exact ih
    | true => rfl

theorem map {f : Ghost → Ghost} (h : g.Rotated n g') (hf : ∀ ghost ghost',
    ghost.Rotated n ghost' → (f ghost).Rotated n (f ghost')) : (g.map f).Rotated n (g'.map f) :=
  List.rel_map (fun _ _ he => ⟨he.1, hf _ _ he.2⟩) h

theorem modify {f f' : Ghost → Ghost} (h : g.Rotated n g') (hf : ∀ ghost ghost',
    ghost.Rotated n ghost' → (f ghost).Rotated n (f' ghost')) (id : EntityId) :
    (g.modify f id).Rotated n (g'.modify f' id) := by
  refine List.rel_map ?_ h
  rintro ⟨other, ghost⟩ ⟨_, ghost'⟩ ⟨rfl, hghost⟩
  refine ⟨rfl, ?_⟩
  dsimp only
  split
  · exact hf ghost ghost' hghost
  · exact hghost

theorem disableAll (h : g.Rotated n g') : g.disableAll.Rotated n g'.disableAll :=
  h.map fun _ _ ⟨hbase⟩ => .intro hbase

theorem enableAll (h : g.Rotated n g') : g.enableAll.Rotated n g'.enableAll :=
  h.map fun _ _ ⟨hbase⟩ => .intro hbase

theorem enableFrom (h : g.Rotated n g') (ht : t.Rotated n t') :
    Alike n (Rotated n) (g.enableFrom t) (g'.enableFrom t') := by
  have hentries := Alike.mapM h fun e e' he => show Alike n
      (fun e e' : EntityId × Ghost => e'.1 = e.1 ∧ e.2.Rotated n e'.2)
      (do return (e.1, ← e.2.enableFrom t)) (do return (e'.1, ← e'.2.enableFrom t')) from
    (he.2.enableFrom ht).bind fun _ _ hghost => .ok ⟨he.1, hghost⟩
  exact hentries.bind fun _ _ h' => .ok h'

theorem spawn (h : g.Rotated n g') (id : EntityId) : (g.spawn id).Rotated n (g'.spawn id) :=
  List.rel_append h (.cons ⟨rfl, .intro .invalid⟩ .nil)

theorem despawn (h : g.Rotated n g') (id : EntityId) :
    (g.despawn id).Rotated n (g'.despawn id) := by
  refine List.rel_filter ?_ h
  rintro ⟨other, ghost⟩ ⟨_, ghost'⟩ ⟨rfl, -⟩
  exact Iff.rfl

/-- State is refused for the same reason, or given to the same entity. -/
theorem applySnapshot (h : g.Rotated n g') (ht : t.Rotated n t') {old old' : History}
    (hold : old.Rotated n old') (id : EntityId) :
    (∃ e, g.applySnapshot id t old = .error e ∧ g'.applySnapshot id t' old' = .error e) ∨
      ∃ r r', g.applySnapshot id t old = .ok r ∧ g'.applySnapshot id t' old' = .ok r' ∧
        r.1.Rotated n r'.1 ∧ r.2.Rotated n r'.2 := by
  unfold Ghosts.applySnapshot
  rw [ht.isValid_eq, h.isNone_get?_eq]
  split
  · exact Or.inl ⟨_, rfl, rfl⟩
  split
  · exact Or.inl ⟨_, rfl, rfl⟩
  · exact Or.inr ⟨_, _, rfl, rfl, h.modify (fun _ _ ⟨_⟩ => .intro ht) id, hold.recordApplied ht⟩

end Rotated

end Ghosts

end Metronome
