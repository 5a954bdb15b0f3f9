import Metronome.Confirmed
import Metronome.Proofs.Circle
import Metronome.Proofs.Outcome
import Mathlib.Data.List.Forall2

/-!
# Rotated ticks

A rotation moves every tick on the circle the same number of steps on, past the end of the circle if
need be, and leaves the invalid tick alone. No tick is special to it: distances and comparisons of
rotated ticks are those of the ticks (`Rotated.since`, `Rotated.eq_iff`).

Two computations are `Alike` if they return values that are related, or fail with one fault. Only
the positions in the text of a fault may be rotated. `Alike.bind` compares computations step by
step.
-/

namespace Metronome

/-- The second tick is the first one, moved `n` steps around the circle. -/
structure Tick.Moved (n : UInt32) (t t' : Tick) : Prop where
  onCircle : t.OnCircle
  eq_shift : t' = t.shift n

/-- The second tick is the first one, moved `n` steps around the circle; both may be no tick. -/
inductive Tick.Rotated (n : UInt32) : Tick → Tick → Prop
  /-- No tick stays no tick. -/
  | invalid : Rotated n Tick.invalid Tick.invalid
  /-- A tick on the circle moves. -/
  | onCircle {t : Tick} (h : t.OnCircle) : Rotated n t (t.shift n)

/-- The second fault is the first one, with the positions in its text rotated. -/
inductive Fault.Rotated (n : UInt32) : Fault → Fault → Prop
  /-- The fault tells no position. -/
  | same (f : Fault) : Rotated n f f
  /-- The fault tells two positions, each a tick and a fraction. -/
  | burstMissed {t t' u u' : Tick} (reached : t.Rotated n t') (expected : u.Rotated n u')
      (p q : String) :
      Rotated n (.burstMissed (t.text ++ "@" ++ p) (u.text ++ "@" ++ q))
        (.burstMissed (t'.text ++ "@" ++ p) (u'.text ++ "@" ++ q))

/-- Two outcomes that are values related by `R`, or faults that differ in a rotation only. -/
inductive Alike {α β : Type} (n : UInt32) (R : α → β → Prop) :
    Except Fault α → Except Fault β → Prop
  /-- Both return. -/
  | ok {a : α} {b : β} (h : R a b) : Alike n R (.ok a) (.ok b)
  /-- Both fail. -/
  | error {f g : Fault} (h : f.Rotated n g) : Alike n R (.error f) (.error g)

variable {n : UInt32}

/-- Choices made alike from related values are related. -/
theorem related_ite {α β : Type} {R : α → β → Prop} {p : Prop} [Decidable p] {x y : α} {x' y' : β}
    (hx : R x x') (hy : R y y') : R (if p then x else y) (if p then x' else y') := by
  split
  · exact hx
  · exact hy

/-! ## Outcomes that are alike -/

namespace Alike

variable {α β α' β' : Type} {R : α → β → Prop} {S : α' → β' → Prop}

theorem fails (f : Fault) : Alike n R (.error f) (.error f) :=
  .error (.same f)

theorem same (x : Except Fault α) : Alike n Eq x x := by
  cases x with
  | ok a => exact .ok rfl
  | error f => exact .fails f

theorem mono {R' : α → β → Prop} {x : Except Fault α} {y : Except Fault β} (h : Alike n R x y)
    (hR : ∀ a b, R a b → R' a b) : Alike n R' x y := by
  cases h with
  | ok h => exact .ok (hR _ _ h)
  | error h => exact .error h

/-- Computations are alike if their first steps are, and what follows a first step that returns. -/
theorem bind_of_ok {x : Except Fault α} {y : Except Fault β} {k : α → Except Fault α'}
    {l : β → Except Fault β'} (h : Alike n R x y)
    (hk : ∀ a b, x = .ok a → R a b → Alike n S (k a) (l b)) : Alike n S (x >>= k) (y >>= l) := by
  cases h with
  | ok h => exact hk _ _ rfl h
  | error h => exact .error h

theorem bind {x : Except Fault α} {y : Except Fault β} {k : α → Except Fault α'}
    {l : β → Except Fault β'} (h : Alike n R x y) (hk : ∀ a b, R a b → Alike n S (k a) (l b)) :
    Alike n S (x >>= k) (y >>= l) :=
  h.bind_of_ok fun a b _ => hk a b

/-- Computations that branch alike are alike. -/
theorem ite {p q : Prop} [Decidable p] [Decidable q] {x y : Except Fault α} {x' y' : Except Fault β}
    (hpq : p ↔ q) (hx : p → Alike n R x x') (hy : ¬p → Alike n R y y') :
    Alike n R (if p then x else y) (if q then x' else y') := by
  by_cases hp : p
  · rw [if_pos hp, if_pos (hpq.mp hp)]
    exact hx hp
  · rw [if_neg hp, if_neg (mt hpq.mpr hp)]
    exact hy hp

/-- Computations that take one of two ways, and go on alike from what either gives. -/
theorem ite_bind {p : Prop} [Decidable p] {x y : Except Fault α} {x' y' : Except Fault β}
    {k : α → Except Fault α'} {l : β → Except Fault β'} (hx : Alike n R x x') (hy : Alike n R y y')
    (hk : ∀ a b, R a b → Alike n S (k a) (l b)) :
    Alike n S (if p then x >>= k else y >>= k) (if p then x' >>= l else y' >>= l) :=
  .ite Iff.rfl (fun _ => hx.bind hk) fun _ => hy.bind hk

/-- A pass over lists that are related element by element. -/
theorem mapM {f : α → Except Fault α'} {g : β → Except Fault β'} {as : List α} {bs : List β}
    (h : List.Forall₂ R as bs) (hf : ∀ a b, R a b → Alike n S (f a) (g b)) :
    Alike n (List.Forall₂ S) (as.mapM f) (bs.mapM g) := by
  induction h with
  | nil => exact .ok .nil
  | cons hab _ ih =>
    rw [List.mapM_cons, List.mapM_cons]
    refine (hf _ _ hab).bind fun a' b' h' => ih.bind fun as' bs' hs => ?_
    exact .ok (.cons h' hs)

/-- A choice from lists that are related element by element. -/
theorem filterM {p : α → Except Fault Bool} {q : β → Except Fault Bool} {as : List α} {bs : List β}
    (h : List.Forall₂ R as bs) (hp : ∀ a b, R a b → Alike n Eq (p a) (q b)) :
    Alike n (List.Forall₂ R) (as.filterM p) (bs.filterM q) := by
  have haux : ∀ as bs, List.Forall₂ R as bs → ∀ acc acc', List.Forall₂ R acc acc' →
      Alike n (List.Forall₂ R) (as.filterAuxM p acc) (bs.filterAuxM q acc') := by
    intro as bs h
    induction h with
    | nil => exact fun acc acc' hacc => .ok hacc
    | cons hab _ ih =>
      intro acc acc' hacc
      rw [List.filterAuxM, List.filterAuxM]
      refine (hp _ _ hab).bind fun chosen _ heq => ?_
      subst heq
      refine ih _ _ ?_
      cases chosen with
      | false => exact hacc
      | true => exact .cons hab hacc
  unfold List.filterM
  exact (haux as bs h [] [] .nil).bind fun as' bs' h' => .ok (List.rel_reverse h')

end Alike

namespace Tick

/-! ## Distances of rotated ticks -/

/-- A rotation keeps all distances. -/
@[simp] theorem distance_shift_shift (t u : Tick) (n : UInt32) :
    (t.shift n).distance (u.shift n) = t.distance u := by
  have ht := raw_toNat_shift t n
  have hu := raw_toNat_shift u n
  simp only [distance, Int.bmod_def]
  omega

theorem shift_shift_comm (t : Tick) (n k : UInt32) : (t.shift n).shift k = (t.shift k).shift n := by
  simp only [shift, mk.injEq]
  grind

theorem shiftBack_shift_comm (t : Tick) (n k : UInt32) :
    (t.shift n).shiftBack k = (t.shiftBack k).shift n := by
  simp only [shift, shiftBack, mk.injEq]
  grind

theorem shift_inj {t u : Tick} : t.shift n = u.shift n ↔ t = u := by
  refine ⟨fun h => ?_, congrArg (shift · n)⟩
  rw [← shiftBack_shift t n, h, shiftBack_shift]

theorem Moved.rotated {t t' : Tick} (h : t.Moved n t') : t.Rotated n t' := by
  obtain ⟨hc, rfl⟩ := h
  exact .onCircle hc

namespace Rotated

variable {t t' u u' : Tick}

theorem isValid_eq (h : t.Rotated n t') : t'.isValid = t.isValid := by
  cases h with
  | invalid => rfl
  | onCircle h => rw [(h.shift n).isValid, h.isValid]

theorem moved (h : t.Rotated n t') (hv : t.isValid = true) : t.Moved n t' := by
  cases h with
  | invalid => cases hv
  | onCircle h => exact ⟨h, rfl⟩

theorem eq_iff (ht : t.Rotated n t') (hu : u.Rotated n u') : t' = u' ↔ t = u := by
  cases ht with
  | invalid =>
    cases hu with
    | invalid => rfl
    | onCircle hu =>
      refine iff_of_false (fun heq => ?_) fun heq => ?_
      · cases heq ▸ (hu.shift n).isValid
      · cases heq ▸ hu.isValid
  | onCircle ht =>
    cases hu with
    | invalid =>
      refine iff_of_false (fun heq => ?_) fun heq => ?_
      · cases heq ▸ (ht.shift n).isValid
      · cases heq ▸ ht.isValid
    | onCircle hu => exact shift_inj

theorem beq_eq (ht : t.Rotated n t') (hu : u.Rotated n u') : (t' == u') = (t == u) := by
  rw [Bool.eq_iff_iff, beq_iff_eq, beq_iff_eq, ht.eq_iff hu]

/-- A rotation keeps what is told from distances. -/
theorem since (ht : t.Rotated n t') (hu : u.Rotated n u') :
    Alike n Eq (t.since u) (t'.since u') := by
  unfold Tick.since
  rw [ht.isValid_eq, hu.isValid_eq]
  refine .ite Iff.rfl (fun hv => ?_) fun _ => .fails _
  obtain ⟨htv, huv⟩ := (Bool.and_eq_true _ _).mp hv
  obtain ⟨-, rfl⟩ := ht.moved htv
  obtain ⟨-, rfl⟩ := hu.moved huv
  exact .ok (distance_shift_shift t u n).symm

theorem isNewerThan (ht : t.Rotated n t') (hu : u.Rotated n u') :
    Alike n Eq (t.isNewerThan u) (t'.isNewerThan u') :=
  (ht.since hu).bind fun _ _ h => .ok (by rw [h])

theorem advance (h : t.Rotated n t') (k : UInt32) :
    Alike n (Moved n) (t.advance k) (t'.advance k) := by
  unfold Tick.advance
  rw [h.isValid_eq]
  refine .ite Iff.rfl (fun hv => ?_) fun _ => .fails _
  obtain ⟨hc, rfl⟩ := h.moved hv
  exact .ok ⟨hc.shift k, shift_shift_comm t n k⟩

theorem rewind (h : t.Rotated n t') (k : UInt32) :
    Alike n (Moved n) (t.rewind k) (t'.rewind k) := by
  unfold Tick.rewind
  rw [h.isValid_eq]
  refine .ite Iff.rfl (fun hv => ?_) fun _ => .fails _
  obtain ⟨hc, rfl⟩ := h.moved hv
  exact .ok ⟨hc.shiftBack k, shiftBack_shift_comm t n k⟩

theorem next (h : t.Rotated n t') : Alike n (Moved n) t.next t'.next :=
  h.advance 1

theorem prev (h : t.Rotated n t') : Alike n (Moved n) t.prev t'.prev :=
  h.rewind 1

end Rotated

end Tick

/-! ## Confirmed ticks -/

variable {φ : Type}

/-- The second position is the first one, with its tick rotated. -/
inductive Confirmed.Rotated (n : UInt32) (c : Confirmed φ) : Confirmed φ → Prop
  /-- Everything else is kept. -/
  | intro {tick : Tick} (htick : c.tick.Rotated n tick) : Rotated n c { c with tick }

namespace Confirmed

theorem Rotated.tick {c c' : Confirmed φ} (h : c.Rotated n c') : c.tick.Rotated n c'.tick := by
  obtain ⟨htick⟩ := h
  exact htick

theorem Rotated.isValid_eq {c c' : Confirmed φ} (h : c.Rotated n c') : c'.isValid = c.isValid :=
  h.tick.isValid_eq

variable [Fraction φ]

theorem rotated_invalid : (invalid : Confirmed φ).Rotated n invalid :=
  .intro .invalid

theorem rotated_whole {t t' : Tick} (h : t.Rotated n t') :
    (whole t : Confirmed φ).Rotated n (whole t') :=
  .intro h

namespace Rotated

variable {c c' : Confirmed φ}

theorem isPartial_eq (h : c.Rotated n c') : c'.isPartial = c.isPartial := by
  obtain ⟨-⟩ := h
  rfl

theorem completed (h : c.Rotated n c') :
    Alike n (fun p q => p.1.Rotated n q.1 ∧ p.2 = q.2) c.completed c'.completed := by
  obtain ⟨htick⟩ := h
  refine .ite Iff.rfl (fun _ => ?_) fun _ => .ok ⟨htick, rfl⟩
  exact htick.prev.bind fun _ _ hprev => .ok ⟨hprev.rotated, rfl⟩

theorem snap (h : c.Rotated n c') (threshold : φ) :
    Alike n (Rotated n) (c.snap threshold) (c'.snap threshold) := by
  unfold Confirmed.snap
  rw [h.isValid_eq]
  refine .ite Iff.rfl (fun _ => .ok h) fun _ => ?_
  refine h.completed.bind ?_
  rintro ⟨t, progress⟩ ⟨t', _⟩ ⟨ht, rfl⟩
  refine .ite Iff.rfl (fun _ => .ok (rotated_whole ht)) fun _ => ?_
  refine .ite Iff.rfl (fun _ => ?_) fun _ => .ok h
  exact ht.next.bind fun _ _ hnext => .ok (rotated_whole hnext.rotated)

end Rotated

end Confirmed

end Metronome
