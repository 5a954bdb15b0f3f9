import Metronome.Confirmed
import Metronome.Clock.Exact
import Metronome.Proofs.Circle

/-!
# Confirmed ticks as they are constructed

What a schedule relies on of its fractions is small: one is not less than itself, and a
finite fraction equals itself. `LawfulFraction` says so, and holds of floating-point
words and of rationals.

A constructed confirmed tick (`Built`) is completed or under way toward its tick. Its `target` is
the last whole tick up to it, at most one tick behind.
-/

namespace Metronome

/-- The laws of fractions that a schedule relies on. -/
class LawfulFraction (φ : Type) [Fraction φ] : Prop where
  /-- One is not less than itself. -/
  not_one_lt_one : ¬(1 : φ) < 1
  /-- One is finite. -/
  isFinite_one : Fraction.isFinite (1 : φ) = true
  /-- A finite fraction equals itself. -/
  beq_self : ∀ f : φ, Fraction.isFinite f = true → (f == f) = true

theorem unpacked_compare_self {u : Float.Model.UnpackedFloat} (h : u.isFinite = true) :
    u.compare u = some .eq := by
  cases u with
  | infinity => cases h
  | notANumber => cases h
  | zero => rfl
  | finite sign m e =>
    have hself : (compare e e).then (compare m m) = .eq := by simp
    cases sign with
    | positive => exact congrArg some hself
    | negative => exact congrArg (fun o => some (Ordering.swap o)) hself

/-- A number that is not infinite and not undefined compares equal to itself. -/
theorem unpacked_beq_self {u : Float.Model.UnpackedFloat} (h : u.isFinite = true) :
    u.beq u = true := by
  show (u.compare u == some .eq) = true
  rw [unpacked_compare_self h]
  rfl

instance : LawfulFraction Float32 where
  not_one_lt_one := by decide
  isFinite_one := by decide
  beq_self f h := unpacked_beq_self (u := f.toModel.unpack) h

instance : LawfulFraction Rat where
  not_one_lt_one := Rat.lt_irrefl
  isFinite_one := rfl
  beq_self f _ := beq_self_eq_true f

namespace Confirmed

variable {φ : Type} [Fraction φ]

/-- The confirmed ticks that the constructors give. -/
inductive Built : Confirmed φ → Prop
  /-- A completed tick. -/
  | whole {t : Tick} (regular : t.Regular) : Built (Confirmed.whole t)
  /-- A tick under way. -/
  | inProgress {t : Tick} (regular : t.Regular) (f : φ) : Built (Confirmed.inProgress t f)

/-- The last whole tick up to a confirmed one. -/
def target (c : Confirmed φ) : Tick :=
  if c.isPartial then c.tick.shiftBack 1 else c.tick

theorem Built.regular {c : Confirmed φ} (h : c.Built) : c.tick.Regular := by
  cases h with
  | whole hr => exact hr
  | inProgress hr => exact hr

theorem Built.onCircle {c : Confirmed φ} (h : c.Built) (hv : c.isValid = true) : c.tick.OnCircle :=
  h.regular.onCircle hv

section Lawful

variable [LawfulFraction φ]

theorem Built.isFinite {c : Confirmed φ} (h : c.Built) : Fraction.isFinite c.fraction = true := by
  cases h with
  | whole => exact LawfulFraction.isFinite_one
  | inProgress _ f =>
    simp only [Confirmed.inProgress]
    split
    · rename_i hf
      exact hf.1
    · exact LawfulFraction.isFinite_one

theorem Built.fraction_beq {c : Confirmed φ} (h : c.Built) : (c.fraction == c.fraction) = true :=
  LawfulFraction.beq_self _ h.isFinite

/-- A constructed tick is completed exactly if its fraction is one. -/
theorem Built.isPartial_eq_false_iff {c : Confirmed φ} (h : c.Built) :
    c.isPartial = false ↔ c.fraction = 1 := by
  have hone := LawfulFraction.not_one_lt_one (φ := φ)
  cases h with
  | whole => simp [isPartial, Confirmed.whole, hone]
  | inProgress _ f =>
    by_cases hf : Fraction.isFinite f ∧ 0 < f ∧ f < 1
    · have hne : f ≠ 1 := fun h1 => hone (h1 ▸ hf.2.2)
      simp [isPartial, Confirmed.inProgress, hf, hne]
    · simp [isPartial, Confirmed.inProgress, hf, hone]

end Lawful

/-! ## The target -/

theorem target_of_not_isPartial {c : Confirmed φ} (h : c.isPartial = false) :
    c.target = c.tick := by
  simp [target, h]

theorem onCircle_target {c : Confirmed φ} (h : c.tick.OnCircle) : c.target.OnCircle := by
  unfold target
  split
  · exact h.shiftBack 1
  · exact h

/-- How far the target is behind the confirmed tick: one tick, or none. -/
def lag (c : Confirmed φ) : Int :=
  if c.isPartial then 1 else 0

theorem lag_nonneg (c : Confirmed φ) : 0 ≤ c.lag := by
  unfold lag
  split <;> omega

theorem lag_le_one (c : Confirmed φ) : c.lag ≤ 1 := by
  unfold lag
  split <;> omega

theorem distance_target {c : Confirmed φ} (h : c.tick.OnCircle) :
    c.tick.distance c.target = c.lag := by
  have hself := Tick.distance_self c.tick
  have h1 : (1 : UInt32).toNat = 1 := rfl
  unfold target lag
  split
  · rw [Tick.distance_shiftBack_right h h (by omega), hself, h1]
    rfl
  · exact hself

/-- Distances from the target are those from the confirmed tick, less the lag. -/
theorem target_distance {c : Confirmed φ} (h : c.tick.OnCircle) {t : Tick} (ht : t.OnCircle)
    (hlo : -1073741824 ≤ c.tick.distance t - c.lag) :
    c.target.distance t = c.tick.distance t - c.lag := by
  have hlag := distance_target h
  have := c.lag_nonneg
  have := Tick.distance_lt c.tick t
  rw [Tick.distance_eq_sub h (onCircle_target h) ht (by omega) (by omega), hlag]

end Confirmed

end Metronome
