import Metronome.Duration
import Metronome.Proofs.Rounding
import Metronome.Proofs.Words

/-!
# Seconds as durations

A number of seconds becomes the nearest whole number of nanoseconds, the even one of two
(`exists_ofSeconds`). Those below `2 ^ 64` seconds have a duration and the others have none
(`ofSeconds_eq_ok`, `ofSeconds_eq_error`): no word is smaller than that and rounds up to it.
-/

namespace Metronome

open Float.Model UnpackedFloat

namespace Binary

/-- A shift rounds by what the rest tells. -/
theorem shiftRounding_eq (n shift : ℕ) :
    shiftRounding n shift =
      (accuracyOfFraction (n % 2 ^ shift) (2 ^ shift)).roundToNearestEven (n / 2 ^ shift) := by
  have hshifted : shiftRounding n shift =
      if 2 ^ shift < 2 * (n % 2 ^ shift) ∨
          2 * (n % 2 ^ shift) = 2 ^ shift ∧ n / 2 ^ shift % 2 = 1 then
        n / 2 ^ shift + 1
      else n / 2 ^ shift := by
    simp [shiftRounding]
  have hpos : 0 < 2 ^ shift := Nat.two_pow_pos shift
  rw [hshifted]
  clear hshifted
  unfold accuracyOfFraction
  generalize 2 ^ shift = unit at hpos
  generalize n % unit = rest
  generalize n / unit = whole
  by_cases hzero : rest = 0
  · rw [if_pos hzero]
    exact if_neg (by omega)
  rw [if_neg hzero]
  cases hcmp : compare (2 * rest) unit with
  | lt =>
    have hlt := Nat.compare_eq_lt.mp hcmp
    exact if_neg (by omega)
  | eq =>
    have heq := Nat.compare_eq_eq.mp hcmp
    change _ = whole + whole % 2
    split_ifs <;> omega
  | gt => exact if_pos (.inl (Nat.compare_eq_gt.mp hcmp))

/-- A number that is shifted to the right is rounded to nearest. -/
theorem isNearest_shiftRounding (n shift : ℕ) :
    IsNearest (n / 2 ^ shift) (shiftRounding n shift) := by
  have hpos : 0 < 2 ^ shift := Nat.two_pow_pos shift
  have hrest : (n / 2 ^ shift : ℚ) - (n / 2 ^ shift : ℕ) =
      (n % 2 ^ shift : ℕ) / (2 ^ shift : ℕ) := by
    have hparts : (n : ℚ) = (n / 2 ^ shift : ℕ) * (2 ^ shift : ℕ) + (n % 2 ^ shift : ℕ) := by
      exact_mod_cast (Nat.div_add_mod' n (2 ^ shift)).symm
    push_cast at hparts ⊢
    field_simp
    linarith
  have htells := tells_fraction (Nat.mod_lt n hpos)
  rw [← hrest] at htells
  have hnearest := (Truncates.ofMantissaAndAccuracy htells).nearest
  rw [shiftRounding_eq]
  generalize accuracyOfFraction (n % 2 ^ shift) (2 ^ shift) = told at hnearest
  rcases told with _ | _ | _ | _ <;> exact hnearest

end Binary

namespace Duration

open Binary

theorem perSecond_pos : (0 : ℚ) < perSecond := by norm_num [perSecond]

/-- A number of seconds that is not negative has the nearest number of nanoseconds, unless there
are too many. -/
theorem exists_ofSeconds {x : Float} (hx : x.isFinite) (hnonneg : 0 ≤ (ofFloat x).toRat) :
    ∃ nanos, IsNearest ((ofFloat x).toRat * perSecond) nanos ∧
      ofSeconds x = if nanos < limit then .ok ⟨nanos⟩ else .error .durationTooBig := by
  obtain ⟨negative, m, e, hm⟩ := isFinite_iff.mp hx
  rw [hm] at hnonneg
  have hunmarked : (negative && m != 0) = false := by
    rcases toRat_nonneg_iff.mp hnonneg with rfl | rfl
    · rfl
    · exact Bool.and_false negative
  refine ⟨shiftRounding (m * perSecond * 2 ^ e.toNat) (-e).toNat, ?_, ?_⟩
  · have hvalue : ((m * perSecond * 2 ^ e.toNat : ℕ) : ℚ) / 2 ^ (-e).toNat =
        (finite negative m e).toRat * perSecond := by
      have hexponent : (2 : ℚ) ^ e = 2 ^ e.toNat / 2 ^ (-e).toNat := by
        rw [← zpow_natCast, ← zpow_natCast, ← zpow_sub₀ two_ne_zero]
        congr 1
        omega
      rw [toRat_of_nonneg hnonneg, hexponent]
      push_cast
      ring
    rw [hm, ← hvalue]
    exact isNearest_shiftRounding _ _
  · unfold ofSeconds ofBinary
    rw [hm]
    dsimp only
    rw [if_neg (by rw [hunmarked]; exact Bool.false_ne_true)]
    rfl

/-- The words have no number between the last whole number below `2 ^ 64` and that. -/
theorem toRat_le_of_lt {x : Float} (hx : x.isFinite) (hnonneg : 0 ≤ (ofFloat x).toRat)
    (hlt : (ofFloat x).toRat < 2 ^ 64) : (ofFloat x).toRat ≤ 2 ^ 64 - 1 := by
  obtain ⟨negative, m, e, hm⟩ := isFinite_iff.mp hx
  have hfits := fits_ofFloat x
  rw [hm] at hnonneg hlt hfits ⊢
  rw [toRat_of_nonneg hnonneg] at hlt ⊢
  have hmantissa : (m : ℚ) ≤ 2 ^ 53 := by exact_mod_cast hfits.1.le
  rcases le_or_gt 0 e with he | he
  · -- a whole number
    obtain ⟨n, rfl⟩ := Int.eq_ofNat_of_zero_le he
    rw [zpow_natCast] at hlt ⊢
    have hnat : m * 2 ^ n < 2 ^ 64 := by exact_mod_cast hlt
    have hle : m * 2 ^ n ≤ 2 ^ 64 - 1 := Nat.le_pred_of_lt hnat
    have hcast : ((m * 2 ^ n : ℕ) : ℚ) ≤ ((2 ^ 64 - 1 : ℕ) : ℚ) := by exact_mod_cast hle
    norm_num at hcast ⊢
    exact hcast
  · have hunit : (2 : ℚ) ^ e ≤ 1 := zpow_le_one_of_nonpos₀ one_le_two he.le
    have hpos : (0 : ℚ) < 2 ^ e := zpow_pos two_pos e
    calc (m * 2 ^ e : ℚ) ≤ 2 ^ 53 * 1 := mul_le_mul hmantissa hunit hpos.le (by positivity)
      _ ≤ 2 ^ 64 - 1 := by norm_num

section Limit

variable {x : Float} (hx : x.isFinite) (hnonneg : 0 ≤ (ofFloat x).toRat)

include hx hnonneg

/-- Less than `2 ^ 64` seconds have a duration. -/
theorem ofSeconds_eq_ok (hlt : (ofFloat x).toRat < 2 ^ 64) :
    ∃ d, ofSeconds x = .ok d ∧ IsNearest ((ofFloat x).toRat * perSecond) d.nanos := by
  obtain ⟨nanos, hnearest, heq⟩ := exists_ofSeconds hx hnonneg
  have hle : (ofFloat x).toRat * perSecond ≤ ((2 ^ 64 - 1) * perSecond : ℕ) := by
    rw [Nat.cast_mul]
    refine mul_le_mul_of_nonneg_right ?_ (Nat.cast_nonneg _)
    exact (toRat_le_of_lt hx hnonneg hlt).trans (by norm_num)
  have hlimit : nanos < limit := (hnearest.le_of_le hle).trans_lt (by decide)
  exact ⟨⟨nanos⟩, heq.trans (if_pos hlimit), hnearest⟩

/-- From `2 ^ 64` seconds on there is none. -/
theorem ofSeconds_eq_error (hle : 2 ^ 64 ≤ (ofFloat x).toRat) :
    ofSeconds x = .error .durationTooBig := by
  obtain ⟨nanos, hnearest, heq⟩ := exists_ofSeconds hx hnonneg
  have hge : ((2 ^ 64 * perSecond : ℕ) : ℚ) ≤ (ofFloat x).toRat * perSecond := by
    rw [Nat.cast_mul]
    refine mul_le_mul_of_nonneg_right ?_ (Nat.cast_nonneg _)
    exact le_trans (by norm_num) hle
  have hlimit : ¬nanos < limit := not_lt.mpr (hnearest.ge_of_ge hge)
  exact heq.trans (if_neg hlimit)

end Limit

end Duration

end Metronome
