import Mathlib.Data.Nat.Prime.Basic
import Mathlib.Tactic.FieldSimp
import Metronome.Proofs.Rounding
import Metronome.Proofs.Words

/-!
# Quotients of floating-point numbers

The quotient of two numbers is computed to more bits than a word holds and then rounded to the
nearest number of its unit (`exists_div`). Cut off to a whole number it is the whole part of the
exact quotient, or the next whole number if the quotient is rounded up to that (`toNat_div`). The
case between the two does not occur: no quotient is halfway between whole numbers that are too large
for a half (`quotient_ne_half`).
-/

namespace Metronome

open Float.Model UnpackedFloat

namespace Binary

/-! ## Numbers that are rounded to a word -/

/-- The exponent that a number of the given mantissa and exponent is rounded to. -/
def unit (m : ℕ) (e : ℤ) : ℤ :=
  max (m.log2 + e - 52) (-1074)

theorem targetExponent_eq (e : ℤ) : Format.binary64.targetExponent e = max (e - 53) (-1074) :=
  rfl

theorem shiftToTargetExponent_eq (m : ℕ) (e : ℤ) (a : Accuracy) :
    shiftToTargetExponent Format.binary64 m e a =
      (ExtendedMantissa.ofMantissaAndAccuracy m a >>> (unit m e - e).toNat,
        e + (unit m e - e).toNat) := by
  have htarget : Format.binary64.targetExponent (totalExponent m e) = unit m e := by
    rw [targetExponent_eq]
    unfold totalExponent unit
    omega
  unfold shiftToTargetExponent
  rw [htarget]
  rfl

/-- A mantissa that has room stays as it is. -/
theorem shiftToTargetExponent_of_lt {m : ℕ} {e : ℤ} (hm : m < 2 ^ 53) (he : -1074 ≤ e) :
    shiftToTargetExponent Format.binary64 m e .exact =
      (.ofMantissaAndAccuracy m .exact, e) := by
  have hlog : m.log2 ≤ 52 := by
    by_cases hzero : m = 0
    · simp [hzero]
    · exact Nat.le_of_lt_succ ((Nat.log2_lt hzero).mpr hm)
  have hunit : (unit m e - e).toNat = 0 := by
    unfold unit
    omega
  rw [shiftToTargetExponent_eq, hunit]
  exact congrArg _ (add_zero e)

/-- A mantissa that has grown by a bit is halved. -/
theorem shiftToTargetExponent_carry {e : ℤ} (he : -1074 ≤ e) :
    shiftToTargetExponent Format.binary64 (2 ^ 53) e .exact =
      (.ofMantissaAndAccuracy (2 ^ 52) .exact, e + 1) := by
  have hunit : (unit (2 ^ 53) e - e).toNat = 1 := by
    rw [unit, Nat.log2_two_pow]
    omega
  rw [shiftToTargetExponent_eq, hunit]
  rfl

/-- What is left to do once the mantissa is rounded: it may have grown by a bit. -/
def carry (sign : Sign) (m : ℕ) (e : ℤ) : UnpackedFloat :=
  let (em, e) := shiftToTargetExponent Format.binary64 m e .exact
  if h : em.mantissa = 0 then .zero sign else .finite sign em.mantissa e (Nat.pos_of_ne_zero h)

/-- The value of an unpacked number is the number `m · 2 ^ e`. -/
def Denotes (u : UnpackedFloat) (sign : Sign) (m : ℕ) (e : ℤ) : Prop :=
  ∃ m' e', ofUnpacked u = .finite (sign == .negative) m' e' ∧
    Fits (.finite (sign == .negative) m' e') ∧ (m' * 2 ^ e' : ℚ) = m * 2 ^ e

/-- A mantissa that was rounded gives a number that fits. -/
theorem denotes_carry (sign : Sign) {m : ℕ} {e : ℤ} (hm : m ≤ 2 ^ 53) (he : -1074 ≤ e)
    (he' : e ≤ 970) (hlong : 2 ^ 52 ≤ m ∨ e = -1074) : Denotes (carry sign m e) sign m e := by
  unfold carry
  rcases hm.lt_or_eq with hm | rfl
  · rw [shiftToTargetExponent_of_lt hm he]
    dsimp only [ExtendedMantissa.ofMantissaAndAccuracy]
    by_cases hzero : m = 0
    · subst hzero
      exact ⟨0, -1074, rfl, fits_zero, by norm_num⟩
    · rw [dif_neg hzero]
      exact ⟨m, e, rfl, ⟨hm, he, by omega, hlong⟩, rfl⟩
  · rw [shiftToTargetExponent_carry he]
    refine ⟨2 ^ 52, e + 1, rfl, ⟨by norm_num, by omega, by omega, .inl le_rfl⟩, ?_⟩
    rw [zpow_add_one₀ two_ne_zero]
    push_cast
    ring

section Unit

variable {m : ℕ} {e : ℤ} {y : ℚ}

theorem div_unit_eq {shift : ℕ} (hshift : unit m e = e + shift) :
    y / 2 ^ unit m e = y / 2 ^ e / 2 ^ shift := by
  rw [hshift, zpow_add₀ two_ne_zero, zpow_natCast, div_div]

/-- Over its unit a number has at most 53 bits. -/
theorem div_unit_le (hle : e ≤ unit m e) (hlt : y / 2 ^ e < m + 1) :
    y / 2 ^ unit m e ≤ (2 ^ 53 : ℕ) := by
  obtain ⟨shift, hshift⟩ := Int.le.dest hle
  have hlog : m.log2 + 1 ≤ 53 + shift := by
    unfold unit at hshift
    omega
  have hbits : m + 1 ≤ 2 ^ 53 * 2 ^ shift :=
    calc m + 1 ≤ 2 ^ (m.log2 + 1) := Nat.lt_log2_self
      _ ≤ 2 ^ (53 + shift) := Nat.pow_le_pow_right two_pos hlog
      _ = 2 ^ 53 * 2 ^ shift := pow_add ..
  rw [div_unit_eq hshift.symm, div_le_iff₀ (by positivity)]
  exact hlt.le.trans (by exact_mod_cast hbits)

/-- Over its unit a number has 53 bits, unless the unit is the least that there is. -/
theorem le_div_unit (hle : e ≤ unit m e) (hge : m ≤ y / 2 ^ e) (hleast : unit m e ≠ -1074) :
    (2 ^ 52 : ℕ) ≤ y / 2 ^ unit m e := by
  obtain ⟨shift, hshift⟩ := Int.le.dest hle
  have hlog : 52 + shift = m.log2 := by
    unfold unit at hshift hleast
    omega
  have hzero : m ≠ 0 := by
    rintro rfl
    rw [Nat.log2_zero] at hlog
    omega
  have hbits : 2 ^ 52 * 2 ^ shift ≤ m := by
    rw [← pow_add, hlog]
    exact Nat.log2_self_le hzero
  rw [div_unit_eq hshift.symm, le_div_iff₀ (by positivity)]
  exact le_trans (by exact_mod_cast hbits) hge

/-- A number that is known to the accuracy of its mantissa is rounded to the nearest number of its
unit. -/
theorem denotes_roundWithAccuracy (sign : Sign) {a : Accuracy} (ha : Tells a (y / 2 ^ e - m))
    (hle : e ≤ unit m e) (hle' : unit m e ≤ 970) :
    ∃ n, IsNearest (y / 2 ^ unit m e) n ∧
      Denotes (roundWithAccuracy Format.binary64 sign m e a) sign n (unit m e) := by
  obtain ⟨shift, hshift⟩ := Int.le.dest hle
  have hself : (unit m e - e).toNat = shift := by omega
  have htruncates := (Truncates.ofMantissaAndAccuracy ha).shiftRight shift
  rw [← div_unit_eq hshift.symm] at htruncates
  refine ⟨_, htruncates.nearest, ?_⟩
  have hround : roundWithAccuracy Format.binary64 sign m e a =
      carry sign (ExtendedMantissa.ofMantissaAndAccuracy m a >>> shift).roundedMantissa
        (unit m e) := by
    unfold roundWithAccuracy
    rw [shiftToTargetExponent_eq, hself, hshift]
    rfl
  rw [hround]
  refine denotes_carry sign ?_ (le_max_right _ _) hle' ?_
  · exact htruncates.nearest.le_of_le (div_unit_le hle (sub_lt_iff_lt_add'.mp ha.lt_one))
  · by_cases hleast : unit m e = -1074
    · exact .inr hleast
    · exact .inl (htruncates.nearest.ge_of_ge (le_div_unit hle (sub_nonneg.mp ha.nonneg) hleast))

end Unit

/-! ## Division -/

/-- The unit of a number, told by the place of its first bit. -/
theorem unit_eq_log {q : ℚ} (hq : 0 < q) {m : ℕ} {e : ℤ} (hle : m ≤ q / 2 ^ e)
    (hlt : q / 2 ^ e < m + 1) (hlong : e ≤ -1074 ∨ 2 ^ 52 ≤ m) :
    unit m e = max (Int.log 2 q - 52) (-1074) := by
  have hpos : (0 : ℚ) < 2 ^ e := zpow_pos two_pos e
  rw [le_div_iff₀ hpos] at hle
  rw [div_lt_iff₀ hpos] at hlt
  by_cases hzero : m = 0
  · subst hzero
    have hlog : Int.log 2 q < e :=
      (Int.lt_zpow_iff_log_lt one_lt_two hq).mp (by simpa using hlt)
    rw [unit, Nat.log2_zero]
    omega
  have hlower : ((2 ^ m.log2 : ℕ) : ℚ) ≤ m := by exact_mod_cast Nat.log2_self_le hzero
  have hupper : (m + 1 : ℚ) ≤ (2 ^ (m.log2 + 1) : ℕ) := by exact_mod_cast Nat.lt_log2_self
  have hlog : m.log2 + e ≤ Int.log 2 q := by
    rw [← Int.zpow_le_iff_le_log one_lt_two hq]
    rw [Nat.cast_ofNat, zpow_add₀ two_ne_zero, zpow_natCast]
    push_cast at hlower
    exact (mul_le_mul_of_nonneg_right hlower hpos.le).trans hle
  have hlog' : Int.log 2 q < m.log2 + 1 + e := by
    rw [← Int.lt_zpow_iff_log_lt one_lt_two hq]
    rw [Nat.cast_ofNat, zpow_add₀ two_ne_zero]
    push_cast at hupper
    exact hlt.trans_le (mul_le_mul_of_nonneg_right (by exact_mod_cast hupper) hpos.le)
  unfold unit
  omega

/-- The quotient `m · 2 ^ e / (n · 2 ^ d)` of two numbers. -/
def quotient (m : ℕ) (e : ℤ) (n : ℕ) (d : ℤ) : ℚ :=
  m * 2 ^ e / (n * 2 ^ d)

section Division

variable {m n : ℕ} {e d : ℤ}

theorem quotient_pos (hm : 0 < m) (hn : 0 < n) : 0 < quotient m e n d := by
  unfold quotient
  positivity

/-- A quotient is computed to at least 53 bits, or to all bits that a word can have, before it is
rounded. -/
theorem exists_divCore (hm : 0 < m) (hn : 0 < n) :
    ∃ whole u accuracy, divCore Format.binary64 m e n d = (whole, u, accuracy) ∧
      Tells accuracy (quotient m e n d / 2 ^ u - whole) ∧
      (u ≤ -1074 ∨ 2 ^ 52 ≤ whole) := by
  have htarget : Format.binary64.targetExponent (totalExponent m e - totalExponent n d) =
      max (m.log2 + e - (n.log2 + d) - 53) (-1074) := by
    rw [targetExponent_eq]
    unfold totalExponent
    omega
  obtain ⟨shift, hshift⟩ : ∃ shift : ℕ,
      min (e - d) (max (m.log2 + e - (n.log2 + d) - 53) (-1074)) = e - d - shift :=
    ⟨(e - d - min (e - d) (max (m.log2 + e - (n.log2 + d) - 53) (-1074))).toNat, by omega⟩
  refine ⟨m <<< shift / n, e - d - shift, accuracyOfFraction (m <<< shift % n) n, ?_, ?_, ?_⟩
  · unfold divCore
    rw [htarget, hshift]
    dsimp only
    rw [sub_sub_cancel, Int.toNat_natCast]
  · have hn' : (n : ℚ) ≠ 0 := by exact_mod_cast hn.ne'
    have hdiv : (m * 2 ^ shift : ℚ) = n * (m <<< shift / n : ℕ) + (m <<< shift % n : ℕ) := by
      rw [Nat.shiftLeft_eq]
      exact_mod_cast (Nat.div_add_mod (m * 2 ^ shift) n).symm
    have hrest : quotient m e n d / 2 ^ (e - d - shift) - (m <<< shift / n : ℕ) =
        (m <<< shift % n : ℕ) / n := by
      have hq : quotient m e n d / 2 ^ (e - d - shift) = m * 2 ^ shift / n := by
        rw [quotient, zpow_sub₀ two_ne_zero, zpow_sub₀ two_ne_zero, zpow_natCast]
        field_simp
      rw [hq, hdiv]
      field_simp
      ring
    rw [hrest]
    exact tells_fraction (Nat.mod_lt _ hn)
  · by_cases hleast : e - d - shift ≤ -1074
    · exact .inl hleast
    refine .inr ((Nat.le_div_iff_mul_le hn).mpr ?_)
    rw [Nat.shiftLeft_eq]
    calc 2 ^ 52 * n ≤ 2 ^ 52 * 2 ^ (n.log2 + 1) := Nat.mul_le_mul_left _ Nat.lt_log2_self.le
      _ = 2 ^ (n.log2 + 53) := by rw [← pow_add]; congr 1; ring
      _ ≤ 2 ^ (m.log2 + shift) := Nat.pow_le_pow_right two_pos (by omega)
      _ = 2 ^ m.log2 * 2 ^ shift := pow_add ..
      _ ≤ m * 2 ^ shift := Nat.mul_le_mul_right _ (Nat.log2_self_le hm.ne')

/-- A positive quotient that is not too large is rounded to the nearest number of its unit. -/
theorem exists_div (hm : 0 < m) (hn : 0 < n) (hlt : quotient m e n d < 2 ^ 53) :
    ∃ u N, u = max (Int.log 2 (quotient m e n d) - 52) (-1074) ∧
      IsNearest (quotient m e n d / 2 ^ u) N ∧
      Denotes (UnpackedFloat.div Format.binary64 (.finite .positive m e hm)
        (.finite .positive n d hn)) .positive N u := by
  have hq : 0 < quotient m e n d := quotient_pos hm hn
  obtain ⟨whole, u, accuracy, hcore, haccuracy, hlong⟩ := exists_divCore (e := e) (d := d) hm hn
  have hunit := unit_eq_log hq (sub_nonneg.mp haccuracy.nonneg)
    (sub_lt_iff_lt_add'.mp haccuracy.lt_one) hlong
  have hlog : Int.log 2 (quotient m e n d) < 53 :=
    (Int.lt_zpow_iff_log_lt one_lt_two hq).mp (by exact_mod_cast hlt)
  have hle : u ≤ unit whole u := by
    rcases hlong with hlong | hlong
    · exact hlong.trans (le_max_right _ _)
    · have := (Nat.le_log2 (by omega)).mpr hlong
      unfold unit
      omega
  obtain ⟨N, hN, hdenotes⟩ := denotes_roundWithAccuracy .positive haccuracy hle (by omega)
  refine ⟨unit whole u, N, hunit, hN, ?_⟩
  have hdiv : UnpackedFloat.div Format.binary64 (.finite .positive m e hm)
      (.finite .positive n d hn) =
        roundWithAccuracy Format.binary64 .positive whole u accuracy := by
    unfold UnpackedFloat.div
    dsimp only
    rw [hcore]
    rfl
  exact hdiv ▸ hdenotes

end Division

/-! ## Whole numbers -/

/-- A number that is not negative is cut off to its whole part. -/
theorem roundToInt_positive (m : ℕ) (e : ℤ) :
    roundToInt .positive m e = (⌊(m * 2 ^ e : ℚ)⌋₊ : ℕ) := by
  have hdown : (0 - (e - (e.toNat : ℤ))).toNat = (-e).toNat := by omega
  have hvalue : (m * 2 ^ e : ℚ) = (m <<< e.toNat : ℕ) / 2 ^ (-e).toNat := by
    have he : e = e.toNat - (-e).toNat := by omega
    conv_lhs => rw [he, zpow_sub₀ two_ne_zero, zpow_natCast, zpow_natCast]
    rw [Nat.shiftLeft_eq]
    push_cast
    ring
  have hexact : Truncates (.ofMantissaAndAccuracy (m <<< e.toNat) .exact) (m <<< e.toNat : ℕ) :=
    .ofMantissaAndAccuracy (sub_self _)
  have htruncates := hexact.shiftRight (-e).toNat
  rw [← hvalue] at htruncates
  have hfloor := (Nat.floor_eq_iff (by positivity)).mpr ⟨htruncates.le, htruncates.lt⟩
  unfold roundToInt decreaseExponent shiftToExponent
  dsimp only
  rw [sub_zero, hdown, hfloor]
  rfl

/-- A number that is no more than a word is cut off to a word. -/
theorem toNat_toUInt64 {x : Float} {m : ℕ} {e : ℤ} (hx : ofFloat x = .finite false m e)
    (hlt : (m * 2 ^ e : ℚ) < 2 ^ 64) : x.toUInt64.toNat = ⌊(m * 2 ^ e : ℚ)⌋₊ := by
  have hwhole : x.toModel.unpack.toInt 0 (UInt64.size - 1) = (⌊(m * 2 ^ e : ℚ)⌋₊ : ℕ) := by
    rw [ofFloat_eq] at hx
    cases hu : x.toModel.unpack <;> rw [hu] at hx
    case zero sign =>
      obtain ⟨-, rfl, rfl⟩ := Binary.finite.inj hx
      rw [Nat.cast_zero, zero_mul, Nat.floor_zero]
      rfl
    case finite sign m' e' hpos =>
      obtain ⟨hsign, rfl, rfl⟩ := Binary.finite.inj hx
      cases sign
      · cases hsign
      · exact roundToInt_positive m' e'
    all_goals cases hx
  have hsize : ⌊(m * 2 ^ e : ℚ)⌋₊ < UInt64.size := by
    rw [Nat.floor_lt (by positivity)]
    exact_mod_cast hlt
  change (UInt64.ofNatClamp (x.toModel.unpack.toInt 0 (UInt64.size - 1)).toNat).toNat = _
  rw [hwhole, Int.toNat_natCast, UInt64.ofNatClamp_eq_ofNat _ hsize]
  exact Nat.mod_eq_of_lt hsize

/-! ## The whole part of a rounded quotient -/

/-- A quotient is not halfway between two whole numbers of more than 52 bits. -/
theorem quotient_ne_half {m n k : ℕ} {e d : ℤ} (hpos : 0 < m) (hm : m < 2 ^ 53) (hn : 0 < n)
    (hk : 2 ^ 52 ≤ k) : quotient m e n d ≠ k + 1 / 2 := by
  intro heq
  have hnum : (m * 2 ^ (e + 1 - d) : ℚ) = (2 * k + 1 : ℕ) * n := by
    have hn' : (n : ℚ) ≠ 0 := by exact_mod_cast hn.ne'
    rw [quotient, div_eq_iff (by positivity)] at heq
    rw [zpow_sub₀ two_ne_zero, zpow_add_one₀ two_ne_zero, ← mul_div_assoc, ← mul_assoc, heq]
    push_cast
    field_simp
  -- an odd number of more than 53 bits cannot divide the mantissa
  have hdvd : 2 * k + 1 ∣ m := by
    rcases le_total 0 (e + 1 - d) with hup | hdown
    · obtain ⟨shift, hshift⟩ := Int.eq_ofNat_of_zero_le hup
      rw [hshift, zpow_natCast] at hnum
      have hmul : m * 2 ^ shift = (2 * k + 1) * n := by exact_mod_cast hnum
      have hodd : Nat.Coprime (2 * k + 1) (2 ^ shift) :=
        (Nat.coprime_two_right.mpr ⟨k, rfl⟩).pow_right shift
      exact hodd.dvd_of_dvd_mul_right (hmul ▸ dvd_mul_right _ _)
    · obtain ⟨shift, hshift⟩ := Int.eq_ofNat_of_zero_le (neg_nonneg.mpr hdown)
      rw [← neg_neg (e + 1 - d), hshift, zpow_neg, zpow_natCast,
        mul_inv_eq_iff_eq_mul₀ (by positivity)] at hnum
      have hmul : m = (2 * k + 1) * n * 2 ^ shift := by exact_mod_cast hnum
      exact hmul ▸ (dvd_mul_right _ _).mul_right _
  have := Nat.le_of_dvd hpos hdvd
  omega

/-- An unpacked number is told by its value. -/
theorem eq_finite_of_ofUnpacked {u : UnpackedFloat} {m : ℕ} {e : ℤ} (hm : 0 < m)
    (h : ofUnpacked u = .finite false m e) : u = .finite .positive m e hm := by
  cases u with
  | notANumber => cases h
  | infinity sign => cases h
  | zero sign =>
    obtain ⟨-, rfl, -⟩ := Binary.finite.inj h
    cases hm
  | finite sign m' e' hm' =>
    obtain ⟨hsign, rfl, rfl⟩ := Binary.finite.inj h
    cases sign
    · cases hsign
    · rfl

theorem eq_zero_of_ofUnpacked {u : UnpackedFloat} {negative : Bool} {e : ℤ}
    (h : ofUnpacked u = .finite negative 0 e) : ∃ sign, u = .zero sign := by
  cases u with
  | notANumber => cases h
  | infinity sign => cases h
  | zero sign => exact ⟨sign, rfl⟩
  | finite sign m e' hm =>
    obtain ⟨-, rfl, -⟩ := Binary.finite.inj h
    cases hm

theorem toNat_div_of_pos {x y : Float} {m n : ℕ} {e d : ℤ} (hx : ofFloat x = .finite false m e)
    (hm : 0 < m) (hy : ofFloat y = .finite false n d) (hn : 0 < n)
    (hlt : quotient m e n d < 2 ^ 53) :
    (x / y).toUInt64.toNat =
      if RoundsUp (quotient m e n d) then ⌊quotient m e n d⌋₊ + 1 else ⌊quotient m e n d⌋₊ := by
  have hbound : m < 2 ^ 53 := by
    have := fits_ofFloat x
    rw [hx] at this
    exact this.1
  obtain ⟨u, N, hu, hN, m', e', hdiv, hfits, hvalue⟩ := exists_div (e := e) (d := d) hm hn hlt
  have hq := quotient_pos (e := e) (d := d) hm hn
  have hpack : x / y = .ofModel (.pack (UnpackedFloat.div Format.binary64
      (.finite .positive m e hm) (.finite .positive n d hn))) := by
    rw [ofFloat_eq] at hx hy
    rw [← eq_finite_of_ofUnpacked hm hx, ← eq_finite_of_ofUnpacked hn hy]
    rfl
  have hle : u ≤ 0 := by
    have := (Int.lt_zpow_iff_log_lt (b := 2) one_lt_two hq (x := 53)).mp (by exact_mod_cast hlt)
    omega
  have htie : u = 0 → quotient m e n d ≠ ⌊quotient m e n d⌋₊ + 1 / 2 := by
    intro hzero
    refine quotient_ne_half hm hbound hn (Nat.le_floor ?_)
    have := (Int.zpow_le_iff_le_log (b := 2) one_lt_two hq (x := 52)).mpr (by omega)
    exact_mod_cast this
  have hfloor := floor_rounded hq hu hle hN htie
  have hword : ofFloat (x / y) = .finite false m' e' := by
    rw [hpack]
    exact ofFloat_pack hdiv hfits
  have hsmall : (N * 2 ^ u : ℚ) < 2 ^ 64 := by
    have hwhole : ⌊quotient m e n d⌋₊ < 2 ^ 53 :=
      (Nat.floor_lt hq.le).mpr (by exact_mod_cast hlt)
    have hbound : ⌊(N * 2 ^ u : ℚ)⌋₊ < 2 ^ 64 := by
      rw [hfloor]
      split <;> omega
    exact_mod_cast (Nat.floor_lt (by positivity)).mp hbound
  rw [← hvalue] at hfloor hsmall
  rw [← hfloor]
  exact toNat_toUInt64 hword hsmall

/-- How often one number fits into another, computed by their rounded quotient. It is the whole part
of their quotient, or one more where the quotient is rounded up to that. -/
theorem toNat_div {x y : Float} (hx : x.isFinite) (hnonneg : 0 ≤ (ofFloat x).toRat)
    (hy : y.isFinite) (hpos : 0 < (ofFloat y).toRat)
    (hlt : (ofFloat x).toRat / (ofFloat y).toRat < 2 ^ 53) :
    (x / y).toUInt64.toNat =
      if RoundsUp ((ofFloat x).toRat / (ofFloat y).toRat) then
        ⌊(ofFloat x).toRat / (ofFloat y).toRat⌋₊ + 1
      else ⌊(ofFloat x).toRat / (ofFloat y).toRat⌋₊ := by
  obtain ⟨negative, m, e, hm⟩ := isFinite_iff.mp hx
  obtain ⟨negative', n, d, hn⟩ := isFinite_iff.mp hy
  rw [hm] at hnonneg
  rw [hn] at hpos
  obtain ⟨rfl, hn'⟩ := toRat_pos_iff.mp hpos
  rw [hm, hn, toRat_of_nonneg hnonneg, toRat_false] at hlt ⊢
  rcases m.eq_zero_or_pos with rfl | hm'
  · have hzero : (x / y).toUInt64 = 0 := by
      rw [ofFloat_eq] at hm hn
      obtain ⟨sign, hx'⟩ := eq_zero_of_ofUnpacked hm
      have hy' := eq_finite_of_ofUnpacked hn' hn
      change (Float.ofModel (.pack (UnpackedFloat.div Format.binary64
        x.toModel.unpack y.toModel.unpack))).toUInt64 = 0
      have hdiv : UnpackedFloat.div Format.binary64 (.zero sign)
          (.finite .positive n d hn') = .zero (sign / .positive) := rfl
      rw [hx', hy', hdiv]
      cases sign <;> decide
    have hquotient : (((0 : ℕ) : ℚ) * 2 ^ e) / (n * 2 ^ d) = 0 := by simp
    rw [hzero, hquotient, if_neg not_roundsUp_zero]
    rfl
  · obtain rfl := (toRat_nonneg_iff.mp hnonneg).resolve_right hm'.ne'
    exact toNat_div_of_pos hm hm' hn hn' hlt

end Binary

end Metronome
