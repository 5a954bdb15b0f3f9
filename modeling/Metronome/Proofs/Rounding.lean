import Mathlib.Algebra.Order.Floor.Semifield
import Mathlib.Data.Int.Log
import Mathlib.Data.Rat.Floor
import Mathlib.Tactic.Linarith
import Mathlib.Tactic.NormNum
import Mathlib.Tactic.Positivity
import Mathlib.Tactic.Ring

/-!
# Rounding to nearest

A number is rounded by cutting it off bit by bit. What was cut off is remembered in two bits: the
last one, and whether anything else was lost (`Truncates`). They are enough to round the rest to the
nearest whole number, the even one of two (`Truncates.nearest`).

`IsNearest` says what this rounding comes to. A number below a whole number `N` reaches it exactly
if it is no more than one half away (`IsNearest.le_iff`). For a number that is rounded to 53 bits
this tells its whole part: the one that it had, or the next if that is no farther than half the
distance to the next word (`floor_rounded`).
-/

namespace Metronome

open Float.Model.UnpackedFloat

/-- A whole number is nearest to a number, and the even one if two are equally near. -/
structure IsNearest (y : ℚ) (n : ℕ) : Prop where
  near : |y - n| ≤ 1 / 2
  even_of_tie : |y - n| = 1 / 2 → Even n

section Nearest

variable {y : ℚ} {n N : ℕ}

/-- A whole number that is less than one half away is nearest. -/
theorem isNearest_of_abs_lt (h : |y - n| < 1 / 2) : IsNearest y n :=
  ⟨h.le, fun heq => absurd heq h.ne⟩

/-- Rounding does not pass a whole number. -/
theorem IsNearest.le_of_le (h : IsNearest y n) (hle : y ≤ N) : n ≤ N := by
  have hnear := (abs_le.mp h.near).1
  by_contra hlt
  have hsucc : (N : ℚ) + 1 ≤ n := by exact_mod_cast not_le.mp hlt
  linarith

theorem IsNearest.ge_of_ge (h : IsNearest y n) (hle : N ≤ y) : N ≤ n := by
  have hnear := (abs_le.mp h.near).2
  by_contra hlt
  have hsucc : (n : ℚ) + 1 ≤ N := by exact_mod_cast not_le.mp hlt
  linarith

/-- Rounding keeps the order. -/
theorem IsNearest.le_of_lt {y' : ℚ} {n' : ℕ} (h : IsNearest y n) (h' : IsNearest y' n')
    (hlt : y < y') : n ≤ n' := by
  have hnear := (abs_le.mp h.near).1
  have hnear' := (abs_le.mp h'.near).2
  have hsucc : (n : ℚ) < (n' + 1 : ℕ) := by
    push_cast
    linarith
  exact Nat.lt_succ_iff.mp (Nat.cast_lt.mp hsucc)

/-- A number is rounded up to an even whole number if it is no more than one half away. -/
theorem IsNearest.le_iff (h : IsNearest y n) (hlt : y < N)
    (htie : (N : ℚ) - y = 1 / 2 → Even N) : N ≤ n ↔ (N : ℚ) - y ≤ 1 / 2 := by
  have hnear := abs_le.mp h.near
  constructor
  · intro hle
    have hle : (N : ℚ) ≤ n := by exact_mod_cast hle
    linarith
  · intro hhalf
    by_contra hgt
    have hsucc : (n : ℚ) + 1 ≤ N := by exact_mod_cast not_le.mp hgt
    have heq : (N : ℚ) = n + 1 := by
      have hlt : (N : ℚ) < (n + 2 : ℕ) := by
        push_cast
        linarith
      have := Nat.cast_lt.mp hlt
      exact_mod_cast (by omega : N = n + 1)
    -- both neighbours are one half away, so both would be even
    have htie' : y - n = 1 / 2 := by linarith
    have hn := h.even_of_tie (by rw [htie', abs_of_pos one_half_pos])
    have hN := htie (by linarith)
    have heq : N = n + 1 := by exact_mod_cast heq
    rw [heq, Nat.even_add_one] at hN
    exact hN hn

end Nearest

/-! ## Cutting off -/

/-- What an accuracy tells about the part of a number that was cut off. -/
def Tells : Accuracy → ℚ → Prop
  | .exact, rest => rest = 0
  | .inexact .lt, rest => 0 < rest ∧ rest < 1 / 2
  | .inexact .eq, rest => rest = 1 / 2
  | .inexact .gt, rest => 1 / 2 < rest ∧ rest < 1

theorem Tells.nonneg {a : Accuracy} {rest : ℚ} (h : Tells a rest) : 0 ≤ rest := by
  rcases a with _ | _ | _ | _ <;> dsimp only [Tells] at h <;> linarith

theorem Tells.lt_one {a : Accuracy} {rest : ℚ} (h : Tells a rest) : rest < 1 := by
  rcases a with _ | _ | _ | _ <;> dsimp only [Tells] at h <;> linarith

/-- A fraction is told by how twice its numerator compares to its denominator. -/
theorem tells_fraction {num den : ℕ} (h : num < den) :
    Tells (accuracyOfFraction num den) (num / den) := by
  have hden : (0 : ℚ) < den := by exact_mod_cast Nat.zero_lt_of_lt h
  unfold accuracyOfFraction
  split
  case isTrue hzero =>
    subst hzero
    exact zero_div _
  case isFalse hne =>
    have hnum : (0 : ℚ) < num := by exact_mod_cast Nat.pos_of_ne_zero hne
    cases hcmp : compare (2 * num) den
    case lt =>
      refine ⟨div_pos hnum hden, ?_⟩
      have hlt : (2 * num : ℚ) < den := by exact_mod_cast Nat.compare_eq_lt.mp hcmp
      rw [div_lt_div_iff₀ hden two_pos]
      linarith
    case eq =>
      have heq : (2 * num : ℚ) = den := by exact_mod_cast Nat.compare_eq_eq.mp hcmp
      change (num : ℚ) / den = 1 / 2
      rw [div_eq_div_iff hden.ne' two_ne_zero]
      linarith
    case gt =>
      have hgt : (den : ℚ) < 2 * num := by exact_mod_cast Nat.compare_eq_gt.mp hcmp
      refine ⟨?_, (div_lt_one hden).mpr (by exact_mod_cast h)⟩
      rw [div_lt_div_iff₀ two_pos hden]
      linarith

/-- What is kept of a number that is cut off to a whole number. -/
def Truncates (em : ExtendedMantissa) (y : ℚ) : Prop :=
  Tells em.accuracy (y - em.mantissa)

namespace Truncates

variable {em : ExtendedMantissa} {y : ℚ}

theorem le (h : Truncates em y) : (em.mantissa : ℚ) ≤ y :=
  sub_nonneg.mp (Tells.nonneg h)

theorem lt (h : Truncates em y) : y < em.mantissa + 1 :=
  sub_lt_iff_lt_add'.mp (Tells.lt_one h)

theorem ofMantissaAndAccuracy {m : ℕ} {a : Accuracy} (h : Tells a (y - m)) :
    Truncates (.ofMantissaAndAccuracy m a) y := by
  rcases a with _ | _ | _ | _ <;> exact h

/-- One more bit is cut off. -/
theorem shiftRightOne (h : Truncates em y) : Truncates em.shiftRightOne (y / 2) := by
  obtain ⟨m, round, sticky⟩ := em
  obtain ⟨n, rfl | rfl⟩ := Nat.even_or_odd' m
  · have hshift : (⟨2 * n, round, sticky⟩ : ExtendedMantissa).shiftRightOne =
        ⟨n, false, round || sticky⟩ := by
      simp [ExtendedMantissa.shiftRightOne]
    rw [hshift]
    cases round <;> cases sticky <;> simp [Truncates, Tells, ExtendedMantissa.accuracy] at h ⊢ <;>
      first | linarith | exact ⟨by linarith, by linarith⟩
  · have hshift : (⟨2 * n + 1, round, sticky⟩ : ExtendedMantissa).shiftRightOne =
        ⟨n, true, round || sticky⟩ := by
      simp [ExtendedMantissa.shiftRightOne, Nat.mul_add_div]
    rw [hshift]
    cases round <;> cases sticky <;> simp [Truncates, Tells, ExtendedMantissa.accuracy] at h ⊢ <;>
      first | linarith | exact ⟨by linarith, by linarith⟩

theorem shiftRight (h : Truncates em y) (n : ℕ) : Truncates (em >>> n) (y / 2 ^ n) := by
  induction n with
  | zero =>
    rw [pow_zero, div_one]
    exact h
  | succ n ih =>
    rw [pow_succ, ← div_div]
    exact ih.shiftRightOne

/-- Rounding what is kept by what was lost gives the nearest whole number. -/
theorem nearest (h : Truncates em y) : IsNearest y em.roundedMantissa := by
  unfold Truncates at h
  unfold ExtendedMantissa.roundedMantissa
  generalize em.accuracy = a at h ⊢
  generalize em.mantissa = m at h ⊢
  rcases a with _ | _ | _ | _
  case exact =>
    have hzero : y - m = 0 := h
    exact isNearest_of_abs_lt (by rw [Accuracy.roundToNearestEven, hzero, abs_zero]; norm_num)
  case inexact.lt =>
    have hlt : 0 < y - m ∧ y - m < 1 / 2 := h
    exact isNearest_of_abs_lt (abs_lt.mpr ⟨(neg_lt_zero.mpr one_half_pos).trans hlt.1, hlt.2⟩)
  case inexact.gt =>
    have hgt : 1 / 2 < y - m ∧ y - m < 1 := h
    refine isNearest_of_abs_lt (abs_lt.mpr ?_)
    dsimp only [Accuracy.roundToNearestEven]
    push_cast
    constructor <;> linarith
  case inexact.eq =>
    have heven : Even (m + m % 2) := by
      rw [Nat.even_iff]
      omega
    refine ⟨?_, fun _ => heven⟩
    have htie : y = m + 1 / 2 := sub_eq_iff_eq_add'.mp h
    dsimp only [Accuracy.roundToNearestEven]
    rcases Nat.mod_two_eq_zero_or_one m with hmod | hmod <;> rw [hmod, htie] <;> norm_num

end Truncates

/-! ## The whole part of a rounded number -/

/-- How far apart the words of 64 bits are around a number. -/
def spacing (q : ℚ) : ℚ :=
  2 ^ (Int.log 2 q - 52)

theorem spacing_le {q : ℚ} (hq : 0 < q) : spacing q ≤ q :=
  (zpow_le_zpow_right₀ one_le_two (Int.sub_le_self _ (by norm_num))).trans
    (by exact_mod_cast Int.zpow_log_le_self one_lt_two hq)

/-- Whether rounding takes a number to the next whole number. -/
def RoundsUp (q : ℚ) : Prop :=
  (⌊q⌋₊ + 1 : ℚ) - q ≤ spacing q / 2

instance : DecidablePred RoundsUp :=
  fun q => inferInstanceAs (Decidable ((⌊q⌋₊ + 1 : ℚ) - q ≤ spacing q / 2))

theorem not_roundsUp_zero : ¬RoundsUp 0 := by
  unfold RoundsUp spacing
  rw [Nat.floor_zero, Int.log_zero_right]
  norm_num

/-- In the unit that a number is rounded to, the next whole number is one half away if it is half as
close as the next word. -/
theorem roundsUp_iff {q : ℚ} {down : ℕ} (hq : 0 < q)
    (hdown : -down = max (Int.log 2 q - 52) (-1074)) :
    RoundsUp q ↔ (⌊q⌋₊ + 1 - q) * 2 ^ down ≤ 1 / 2 := by
  have hpos : (0 : ℚ) < 2 ^ down := by positivity
  unfold RoundsUp
  by_cases hsmall : q < 1 / 2
  · -- a small number is too far from one, whatever its unit
    have hone : (1 : ℚ) ≤ 2 ^ down := one_le_pow₀ one_le_two
    have hfar : 1 / 2 < (⌊q⌋₊ : ℚ) + 1 - q := by
      have : (0 : ℚ) ≤ ⌊q⌋₊ := Nat.cast_nonneg _
      linarith
    have hspacing := spacing_le hq
    refine iff_of_false (by linarith) (not_le.mpr (hfar.trans_le ?_))
    exact le_mul_of_one_le_right (by linarith) hone
  · have hlog : -1 ≤ Int.log 2 q := by
      rw [← Int.zpow_le_iff_le_log one_lt_two hq]
      norm_num at hsmall ⊢
      exact hsmall
    have hspacing : spacing q = (2 ^ down)⁻¹ := by
      rw [spacing, ← zpow_natCast, ← zpow_neg, hdown]
      congr 1
      omega
    rw [hspacing, ← mul_le_mul_iff_of_pos_right hpos, div_mul_eq_mul_div, inv_mul_cancel₀ hpos.ne']

/-- A number that is rounded keeps its whole part, or reaches the next whole number if it is half as
close to it as the next word. -/
theorem floor_rounded {q : ℚ} {u : ℤ} {N : ℕ} (hq : 0 < q)
    (hu : u = max (Int.log 2 q - 52) (-1074)) (hle : u ≤ 0) (hN : IsNearest (q / 2 ^ u) N)
    (htie : u = 0 → q ≠ ⌊q⌋₊ + 1 / 2) :
    ⌊(N * 2 ^ u : ℚ)⌋₊ = if RoundsUp q then ⌊q⌋₊ + 1 else ⌊q⌋₊ := by
  obtain ⟨down, rfl⟩ : ∃ down : ℕ, u = -down := ⟨(-u).toNat, by omega⟩
  have hpos : (0 : ℚ) < 2 ^ down := by positivity
  rw [zpow_neg, zpow_natCast, div_inv_eq_mul] at hN
  have hfloor : ⌊(N * 2 ^ (-down : ℤ) : ℚ)⌋₊ = N / 2 ^ down := by
    rw [zpow_neg, zpow_natCast, ← div_eq_mul_inv]
    exact_mod_cast Nat.floor_div_eq_div (K := ℚ) N (2 ^ down)
  have hlt : q * 2 ^ down < ((⌊q⌋₊ + 1) * 2 ^ down : ℕ) := by
    push_cast
    exact mul_lt_mul_of_pos_right (Nat.lt_floor_add_one q) hpos
  have hge : ((⌊q⌋₊ * 2 ^ down : ℕ) : ℚ) ≤ q * 2 ^ down := by
    push_cast
    exact mul_le_mul_of_nonneg_right (Nat.floor_le hq.le) hpos.le
  have hdistance : (((⌊q⌋₊ + 1) * 2 ^ down : ℕ) : ℚ) - q * 2 ^ down =
      (⌊q⌋₊ + 1 - q) * 2 ^ down := by
    push_cast
    ring
  have heven : (((⌊q⌋₊ + 1) * 2 ^ down : ℕ) : ℚ) - q * 2 ^ down = 1 / 2 →
      Even ((⌊q⌋₊ + 1) * 2 ^ down) := by
    intro hhalf
    rcases down.eq_zero_or_pos with rfl | hdown
    · rw [hdistance] at hhalf
      exact absurd (by linarith) (htie rfl)
    · exact (even_two.pow_of_ne_zero hdown.ne').mul_left _
  have hreach := hN.le_iff hlt heven
  rw [hdistance, ← roundsUp_iff hq hu] at hreach
  rw [hfloor]
  split
  case isTrue h =>
    refine Nat.div_eq_of_lt_le (hreach.mpr h) ((hN.le_of_le hlt.le).trans_lt ?_)
    exact Nat.mul_lt_mul_of_pos_right (Nat.lt_succ_self _) (Nat.two_pow_pos _)
  case isFalse h =>
    exact Nat.div_eq_of_lt_le (hN.ge_of_ge hge) (not_le.mp fun hle => h (hreach.mp hle))

end Metronome
