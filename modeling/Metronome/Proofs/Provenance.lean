import Mathlib.Data.Set.Function
import Metronome.Proofs.Json.Ticks
import Metronome.Proofs.TickSet

/-!
# Where ticks come from

Ticks come from indices, from steps along the circle and from JSON texts, and sets of ticks from
insertion and from JSON texts (`Tick.Obtained`, `TickSet.Obtained`). Indices and steps give ticks on
the circle only, and insertion leaves out the word of no tick. Reading lets in every word, so what
is read has to be on the circle already; then all that is obtained from it is
(`obtained_only_regular`).

What depends on it is the order of a set. `ordered_iff` tells which sets of words have one relative
to every valid tick: those that hold neither the word of no tick nor two words in a row. All sets on
the circle are among them. Both kinds of other sets can be read.
-/

namespace Metronome

namespace Tick

/-- What is obtained from the constructors and operations of ticks, where texts that are read are
among `texts`. -/
inductive Obtained (texts : Set String) : Tick → Prop
  /-- No tick, the default. -/
  | invalid : Obtained texts invalid
  /-- The tick of an index. -/
  | ofIndex (i : UInt32) : Obtained texts (ofIndex i)
  /-- The tick some steps ahead. -/
  | advance {t u : Tick} {n : UInt32} (ht : Obtained texts t) (h : t.advance n = .ok u) :
    Obtained texts u
  /-- The tick some steps behind. -/
  | rewind {t u : Tick} {n : UInt32} (ht : Obtained texts t) (h : t.rewind n = .ok u) :
    Obtained texts u
  /-- The tick after. -/
  | next {t u : Tick} (ht : Obtained texts t) (h : t.next = .ok u) : Obtained texts u
  /-- The tick before. -/
  | prev {t u : Tick} (ht : Obtained texts t) (h : t.prev = .ok u) : Obtained texts u
  /-- The tick of a JSON text. -/
  | read {text : String} {t : Tick} (mem : text ∈ texts) (h : ofJsonText? text = some t) :
    Obtained texts t

section Steps

variable {t u : Tick} {n : UInt32}

theorem Regular.of_advance (ht : t.Regular) (h : t.advance n = .ok u) : u.OnCircle := by
  unfold Tick.advance at h
  split at h
  · cases h
    exact (ht.onCircle ‹_›).shift n
  · cases h

theorem Regular.of_rewind (ht : t.Regular) (h : t.rewind n = .ok u) : u.OnCircle := by
  unfold Tick.rewind at h
  split at h
  · cases h
    exact (ht.onCircle ‹_›).shiftBack n
  · cases h

end Steps

theorem Obtained.regular {texts : Set String}
    (hread : ∀ text ∈ texts, ∀ t, ofJsonText? text = some t → t.Regular) {t : Tick}
    (h : Obtained texts t) : t.Regular := by
  induction h with
  | invalid => exact .inl rfl
  | ofIndex i => exact .inr (.ofIndex i)
  | advance _ h ih => exact .inr (ih.of_advance h)
  | rewind _ h ih => exact .inr (ih.of_rewind h)
  | next _ h ih => exact .inr (ih.of_advance h)
  | prev _ h ih => exact .inr (ih.of_rewind h)
  | read mem h => exact hread _ mem _ h

/-! ## Words in a row -/

/-- The word after a valid one is as far from it as from itself. -/
theorem distance_succ {t u : Tick} (h : u.raw = t.raw + 1) (hu : u.isValid = true) :
    u.distance t = u.distance u := by
  have hraw : u.raw.toNat = (t.raw.toNat + 1) % 4294967296 := by
    rw [h]
    exact UInt32.toNat_add t.raw 1
  have hne : u.raw.toNat ≠ 0 := fun h0 => by
    have hzero : u.raw = 0 := UInt32.toNat_inj.mp h0
    simp [isValid, hzero] at hu
  have hlt := t.raw.toNat_lt
  rw [distance_self]
  simp only [distance, Int.bmod_def]
  omega

/-- Only words in a row are equally far from another word. -/
theorem eq_or_succ_of_distance_eq {r t u : Tick} (h : r.distance t = r.distance u) :
    t = u ∨ u.raw = t.raw + 1 ∨ t.raw = u.raw + 1 := by
  have hadd (a : UInt32) : (a + 1).toNat = (a.toNat + 1) % 4294967296 := UInt32.toNat_add a 1
  have hr := r.raw.toNat_lt
  have ht := t.raw.toNat_lt
  have hu := u.raw.toNat_lt
  simp only [distance, Int.bmod_def] at h
  have hraw : t.raw.toNat = u.raw.toNat ∨ u.raw.toNat = (t.raw.toNat + 1) % 4294967296 ∨
      t.raw.toNat = (u.raw.toNat + 1) % 4294967296 := by
    omega
  refine hraw.imp (fun h => ?_) (Or.imp (fun h => ?_) fun h => ?_)
  · cases t
    cases u
    exact congrArg mk (UInt32.toNat_inj.mp h)
  · exact UInt32.toNat_inj.mp (h.trans (hadd _).symm)
  · exact UInt32.toNat_inj.mp (h.trans (hadd _).symm)

end Tick

namespace TickSet

/-- What is obtained from the constructors and operations of sets, where texts that are read are
among `texts`. -/
inductive Obtained (texts : Set String) : TickSet → Prop
  /-- No tick: a new set, or one that was cleared. -/
  | empty : Obtained texts empty
  /-- One tick more. -/
  | insert {s : TickSet} {t : Tick} (hs : Obtained texts s) (ht : Tick.Obtained texts t) :
    Obtained texts (s.insert t)
  /-- The set of a JSON text. -/
  | read {text : String} {s : TickSet} (mem : text ∈ texts) (h : ofJsonText? text = some s) :
    Obtained texts s

theorem Obtained.onCircle {texts : Set String}
    (htick : ∀ text ∈ texts, ∀ t, Tick.ofJsonText? text = some t → t.Regular)
    (hset : ∀ text ∈ texts, ∀ s, ofJsonText? text = some s → s.OnCircle) {s : TickSet}
    (h : Obtained texts s) : s.OnCircle := by
  induction h with
  | empty => exact onCircle_empty
  | insert _ ht ih => exact ih.insert_regular (ht.regular htick)
  | read mem h => exact hset _ mem _ h

/-! ## Sets with an order -/

/-- Relative to `r` there is an oldest member and a list of the members, oldest first, and no two
members are of one age. -/
structure OrderedFrom (s : TickSet) (r : Tick) : Prop where
  oldest : ∃ o, s.oldest r = .ok o
  oldestFirst : ∃ ts, s.oldestFirst r = .ok ts
  ages : Set.InjOn r.since {t | t ∈ s.ticks}

/-- Relative to every valid tick the members have an order. -/
def Ordered (s : TickSet) : Prop := ∀ r : Tick, r.isValid = true → s.OrderedFrom r

section Order

variable {s : TickSet} {r : Tick}

theorem isValid_of_oldest {o : Option Tick} (h : s.oldest r = .ok o) {t : Tick}
    (ht : t ∈ s.ticks) : t.isValid = true := by
  unfold oldest at h
  split at h
  case h_1 hnil => exact absurd (hnil ▸ ht) List.not_mem_nil
  case h_2 =>
    split at h
    case isTrue hcomp => exact (comparable_iff.mp hcomp).2 t ht
    case isFalse => cases h

/-- Where all members are valid, comparing them returns. -/
theorem exists_oldest_and_oldestFirst (hs : ∀ t ∈ s.ticks, t.isValid = true)
    (hr : r.isValid = true) :
    (∃ o, s.oldest r = .ok o) ∧ ∃ ts, s.oldestFirst r = .ok ts := by
  have hcomp : s.comparable r = true := comparable_iff.mpr ⟨hr, hs⟩
  constructor
  · unfold oldest
    split
    · exact ⟨none, rfl⟩
    · exact ⟨_, if_pos hcomp⟩
  · rw [oldestFirst, if_pos hcomp]
    split
    · exact ⟨_, rfl⟩
    · exact ⟨_, rfl⟩

/-- The sets with an order hold valid ticks only, and no two words in a row. -/
theorem ordered_iff :
    s.Ordered ↔ ∀ t ∈ s.ticks, t.isValid = true ∧ (⟨t.raw + 1⟩ : Tick) ∉ s.ticks := by
  refine ⟨fun h t ht => ?_, fun h r hr => ?_⟩
  · obtain ⟨o, ho⟩ := (h (Tick.ofIndex 0) rfl).oldest
    have hvalid : ∀ u ∈ s.ticks, u.isValid = true := fun u hu => isValid_of_oldest ho hu
    refine ⟨hvalid t ht, fun hnext => ?_⟩
    -- seen from the later one both are of age zero
    have hv := hvalid _ hnext
    have hage := Tick.distance_succ (t := t) rfl hv
    have heq := (h _ hv).ages ht hnext (by
      rw [Tick.since_eq_ok hv (hvalid t ht), Tick.since_eq_ok hv hv, hage])
    have hraw : t.raw = t.raw + 1 := congrArg Tick.raw heq
    exact absurd (UInt32.left_eq_add.mp hraw) (by decide)
  · obtain ⟨hold, hsorted⟩ := exists_oldest_and_oldestFirst (fun t ht => (h t ht).1) hr
    refine ⟨hold, hsorted, fun t ht u hu heq => ?_⟩
    rw [Tick.since_eq_ok hr (h t ht).1, Tick.since_eq_ok hr (h u hu).1] at heq
    rcases Tick.eq_or_succ_of_distance_eq (Except.ok.inj heq) with heq | hnext | hnext
    · exact heq
    · exact absurd (hnext ▸ hu) (h t ht).2
    · exact absurd (hnext ▸ ht) (h u hu).2

theorem OnCircle.ordered (hs : s.OnCircle) : s.Ordered :=
  ordered_iff.mpr fun t ht => ⟨(hs t ht).isValid, fun hnext => by
    have hodd := Tick.onCircle_iff.mp (hs t ht)
    have hodd' := Tick.onCircle_iff.mp (hs _ hnext)
    have hraw : (t.raw + 1).toNat = (t.raw.toNat + 1) % 4294967296 := UInt32.toNat_add t.raw 1
    simp only [hraw] at hodd'
    omega⟩

end Order

/-- Where ticks and sets come from decides whether they are what they should be. All that is
obtained from indices, steps, insertion and some texts is on the circle, and all sets have an order
relative to every valid tick, if and only if what these texts are read as is on the circle. Without
an order are the sets that hold the word of no tick or two words in a row; and any word, and any set
of words, is read from some text. -/
theorem obtained_only_regular (texts : Set String) (t : Tick) (s : TickSet) :
    (((∀ u, Tick.Obtained texts u → u.Regular) ∧
        ∀ v, Obtained texts v → v.OnCircle ∧ v.Ordered) ↔
      ∀ text ∈ texts, (∀ u, Tick.ofJsonText? text = some u → u.Regular) ∧
        ∀ v, ofJsonText? text = some v → v.OnCircle) ∧
    (s.Ordered ↔ ∀ u ∈ s.ticks, u.isValid = true ∧ (⟨u.raw + 1⟩ : Tick) ∉ s.ticks) ∧
    Tick.ofJsonText? t.toJson.text = some t ∧
    ∃ v, ofJsonText? s.toJson.text = some v ∧ v.ticks.Perm s.ticks := by
  refine ⟨⟨fun ⟨hticks, hsets⟩ text mem => ?_, fun hread => ?_⟩, ordered_iff, t.ofJsonText?_text,
    s.exists_ofJsonText?_text⟩
  · exact ⟨fun u h => hticks u (.read mem h), fun v h => (hsets v (.read mem h)).1⟩
  · have htick := fun text mem => (hread text mem).1
    refine ⟨fun u h => h.regular htick, fun v h => ?_⟩
    have hv := h.onCircle htick fun text mem => (hread text mem).2
    exact ⟨hv, hv.ordered⟩

/-- A text that is read as a set without an order: its members cannot be compared. -/
theorem obtained_only_regular_zero :
    ∃ s, ofJsonText? "\x7b\"ticks\":[0,7]\x7d" = some s ∧
      (∀ o, s.oldest (Tick.ofIndex 5) ≠ .ok o) ∧ ¬s.Ordered := by
  obtain ⟨s, hs, hperm⟩ := (obtained_only_regular ∅ ⟨0⟩ ⟨[⟨0⟩, ⟨7⟩], by decide⟩).2.2.2
  have hordered := (obtained_only_regular ∅ ⟨0⟩ s).2.1
  have hzero : ⟨0⟩ ∈ s.ticks := hperm.mem_iff.mpr List.mem_cons_self
  refine ⟨s, hs, fun o ho => ?_, fun h => ?_⟩
  · exact absurd (isValid_of_oldest ho hzero) (by decide)
  · exact absurd (hordered.mp h _ hzero).1 (by decide)

end TickSet

end Metronome
