import Metronome.Proofs.Partition
import Metronome.Proofs.Quotient

/-!
# What is counted and what is left over

A frame adds its delta to the time that was left over. It counts the ticks that it owes by the
quotient of that time and the step, which is rounded, and leaves the remainder of the division,
which is exact (`exactRemainder_spec`). The two agree unless the quotient is rounded up to the next
whole number; then the frame takes out a tick more than the time holds
(`counts_by_rounded_quotient`).
-/

namespace Metronome

open Float.Model UnpackedFloat

/-- An amount of time is made up of a number of whole steps and a rest that is less than a step. -/
structure Comprises (due step : ℚ) (n : ℕ) (rest : ℚ) : Prop where
  eq : due = n * step + rest
  nonneg : 0 ≤ rest
  lt : rest < step

namespace Comprises

variable {due step rest : ℚ} {n : ℕ}

theorem le (h : Comprises due step n rest) : n * step ≤ due := by
  rw [h.eq]
  exact le_add_of_nonneg_right h.nonneg

theorem lt_succ (h : Comprises due step n rest) : due < (n + 1 : ℕ) * step := by
  rw [h.eq, Nat.cast_add_one, add_one_mul]
  exact (add_lt_add_iff_left _).mpr h.lt

/-- With the same rest there is no room for one more step. -/
theorem not_succ (h : Comprises due step n rest) : ¬Comprises due step (n + 1) rest :=
  fun h' => not_lt.mpr h'.le h.lt_succ

end Comprises

namespace Binary

/-! ## The remainder -/

/-- A number is the same over a smaller unit. -/
theorem scaled (m : ℕ) {e u : ℤ} (h : u ≤ e) :
    ((m * 2 ^ (e - u).toNat : ℕ) : ℚ) * 2 ^ u = m * 2 ^ e := by
  obtain ⟨up, rfl⟩ := Int.le.dest h
  rw [add_sub_cancel_left, Int.toNat_natCast, zpow_add₀ two_ne_zero, zpow_natCast]
  push_cast
  ring

/-- Over their common unit the rest of two numbers of 53 bits has 53 bits again: one of the two is
not scaled. -/
theorem rest_lt {m n : ℕ} (hm : m < 2 ^ 53) (hn : n < 2 ^ 53) (hpos : 0 < n) (e d : ℤ) :
    m * 2 ^ (e - min e d).toNat % (n * 2 ^ (d - min e d).toNat) < 2 ^ 53 := by
  rcases min_choice e d with h | h
  · rw [h, sub_self, Int.toNat_zero, pow_zero, mul_one]
    exact (Nat.mod_le _ _).trans_lt hm
  · rw [h, sub_self, Int.toNat_zero, pow_zero, mul_one]
    exact (Nat.mod_lt _ hpos).trans hn

/-- What is left of a number is exact: the number is made up of whole multiples and the rest. -/
theorem exists_exactRemainder {x y : Float} {negative negative' : Bool} {m n : ℕ} {e d : ℤ}
    (hx : ofFloat x = .finite negative m e) (hy : ofFloat y = .finite negative' n d) (hn : 0 < n) :
    ∃ m' e', ofFloat (exactRemainder x y) = .finite negative m' e' ∧
      (m * 2 ^ e : ℚ) = ⌊quotient m e n d⌋₊ * (n * 2 ^ d) + m' * 2 ^ e' ∧
      (m' * 2 ^ e' : ℚ) < n * 2 ^ d := by
  have hfits := fits_ofFloat x
  have hfits' := fits_ofFloat y
  rw [hx] at hfits
  rw [hy] at hfits'
  obtain ⟨hm, hle, hle', -⟩ := hfits
  obtain ⟨hn', hled, -, -⟩ := hfits'
  have hsmall := rest_lt hm hn' hn e d
  have hscaled := scaled m (min_le_left e d)
  have hscaled' := scaled n (min_le_right e d)
  have hpos : 0 < n * 2 ^ (d - min e d).toNat := Nat.mul_pos hn (Nat.two_pow_pos _)
  have hrest : exactRemainder x y = toFloat (.finite negative
      (m * 2 ^ (e - min e d).toNat % (n * 2 ^ (d - min e d).toNat)) (min e d)) := by
    unfold exactRemainder remainder
    rw [hx, hy]
    exact congrArg toFloat (if_neg hn.ne')
  -- from here on only the two numerators over the common unit matter
  generalize m * 2 ^ (e - min e d).toNat = a at hsmall hscaled hrest
  generalize n * 2 ^ (d - min e d).toNat = b at hsmall hscaled' hrest hpos
  obtain ⟨m', e', hword, hvalue⟩ :=
    ofFloat_toFloat hsmall (e := min e d) (by omega) (by omega) negative
  have hunit : (0 : ℚ) < 2 ^ min e d := zpow_pos two_pos _
  have hfloor : ⌊quotient m e n d⌋₊ = a / b := by
    rw [quotient, ← hscaled, ← hscaled', mul_div_mul_right _ _ hunit.ne', Nat.floor_div_eq_div]
  refine ⟨m', e', hrest ▸ hword, ?_, ?_⟩
  · rw [hvalue, ← hscaled, ← hscaled', hfloor, ← mul_assoc, ← add_mul]
    congr 1
    exact_mod_cast (Nat.div_add_mod' a b).symm
  · rw [hvalue, ← hscaled']
    exact mul_lt_mul_of_pos_right (by exact_mod_cast Nat.mod_lt a hpos) hunit

/-- A number that is not negative is made up of whole multiples of a positive one and the rest. -/
theorem exactRemainder_spec {x y : Float} (hx : x.isFinite) (hnonneg : 0 ≤ (ofFloat x).toRat)
    (hy : y.isFinite) (hpos : 0 < (ofFloat y).toRat) :
    (exactRemainder x y).isFinite ∧
      Comprises (ofFloat x).toRat (ofFloat y).toRat ⌊(ofFloat x).toRat / (ofFloat y).toRat⌋₊
        (ofFloat (exactRemainder x y)).toRat := by
  obtain ⟨negative, m, e, hm⟩ := isFinite_iff.mp hx
  obtain ⟨negative', n, d, hn⟩ := isFinite_iff.mp hy
  rw [hm] at hnonneg
  rw [hn] at hpos
  obtain ⟨rfl, hn'⟩ := toRat_pos_iff.mp hpos
  obtain ⟨m', e', hword, hsum, hlt⟩ := exists_exactRemainder hm hn hn'
  have hrest : 0 ≤ (finite negative m' e').toRat := by
    refine toRat_nonneg_iff.mpr ((toRat_nonneg_iff.mp hnonneg).imp_right ?_)
    rintro rfl
    -- nothing is left of zero
    have hunit : (0 : ℚ) < 2 ^ e' := zpow_pos two_pos e'
    have hle : (m' * 2 ^ e' : ℚ) ≤ 0 :=
      calc (m' * 2 ^ e' : ℚ) ≤ ⌊quotient 0 e n d⌋₊ * (n * 2 ^ d) + m' * 2 ^ e' :=
            le_add_of_nonneg_left (by positivity)
        _ = 0 := by rw [← hsum, Nat.cast_zero, zero_mul]
    have hm' : (m' : ℚ) ≤ 0 := nonpos_of_mul_nonpos_left hle hunit
    exact Nat.le_zero.mp (by exact_mod_cast hm')
  refine ⟨isFinite_iff.mpr ⟨_, _, _, hword⟩, ?_⟩
  rw [hword, hm, hn, toRat_of_nonneg hnonneg, toRat_of_nonneg hrest, toRat_false]
  exact ⟨hsum, toRat_of_nonneg hrest ▸ hrest, hlt⟩

/-! ## Sums -/

/-- An unpacked number that is not marked negative. -/
def Unmarked : UnpackedFloat → Prop
  | .infinity sign | .zero sign | .finite sign _ _ _ => sign = .positive
  | .notANumber => True

/-- A number that is not marked negative is packed without a sign. -/
theorem toNat_pack_lt {u : UnpackedFloat} (h : Unmarked u) :
    (UnpackedFloat.pack Format.binary64 u).toNat < 2 ^ 63 := by
  have hcomponents (exponent : BitVec 11) (mantissa : BitVec 52) :
      (packComponents Format.binary64 .positive exponent mantissa).toNat < 2 ^ 63 := by
    rw [toNat_packComponents]
    have hzero : Sign.positive.toBitVec.toNat = 0 := rfl
    omega
  cases u with
  | notANumber => exact hcomponents _ _
  | infinity sign => exact h ▸ hcomponents _ _
  | zero sign => exact h ▸ hcomponents _ _
  | finite sign m e hm =>
    obtain rfl : sign = .positive := h
    unfold UnpackedFloat.pack
    dsimp only
    split
    · exact hcomponents _ _
    · split <;> exact hcomponents _ _

theorem unmarked_carry (m : ℕ) (e : ℤ) : Unmarked (carry .positive m e) := by
  unfold carry
  dsimp only
  by_cases hzero : (shiftToTargetExponent Format.binary64 m e .exact).1.mantissa = 0
  · rw [dif_pos hzero]
    rfl
  · rw [dif_neg hzero]
    rfl

theorem unmarked_normalize {m : ℤ} (hm : 0 ≤ m) (e : ℤ) :
    Unmarked (UnpackedFloat.normalize Format.binary64 m e .positive) := by
  unfold UnpackedFloat.normalize
  split
  case h_1 h =>
    rw [Int.compare_eq_lt] at h
    omega
  case h_2 => rfl
  case h_3 =>
    unfold UnpackedFloat.round
    exact unmarked_carry _ _

/-- A sum of numbers that are not negative is not marked negative, unless it is of zeros. -/
theorem unmarked_add {u : UnpackedFloat} (hu : u.isFinite) (hnonneg : 0 ≤ (ofUnpacked u).toRat)
    {m : ℕ} {e : ℤ} (hm : 0 < m) :
    Unmarked (UnpackedFloat.add Format.binary64 u (.finite .positive m e hm)) := by
  cases u with
  | notANumber => cases hu
  | infinity sign => cases hu
  | zero sign => rfl
  | finite sign m' e' hm' =>
    obtain rfl : sign = .positive := by
      rcases toRat_nonneg_iff.mp hnonneg with h | h
      · cases sign
        · cases h
        · rfl
      · omega
    unfold UnpackedFloat.add
    dsimp only [Sign.apply]
    exact unmarked_normalize (Int.add_nonneg (Int.natCast_nonneg _) (Int.natCast_nonneg _)) _

/-- Zero is less than the positive numbers. -/
theorem ofBits_zero_lt_iff {x : Float} (hx : x.isFinite) :
    Float.ofBits 0 < x ↔ 0 < (ofFloat x).toRat := by
  have hzero : (Float.ofBits 0).toModel.unpack = .zero .positive := rfl
  have hlt : Float.ofBits 0 < x ↔
      UnpackedFloat.lt (Float.ofBits 0).toModel.unpack x.toModel.unpack = true :=
    decide_eq_true_iff
  change x.toModel.unpack.isFinite = true at hx
  rw [hlt, hzero, ofFloat_eq]
  cases hu : x.toModel.unpack with
  | notANumber =>
    rw [hu] at hx
    cases hx
  | infinity sign =>
    rw [hu] at hx
    cases hx
  | zero sign =>
    rw [ofUnpacked_zero, toRat_zero]
    exact iff_of_false Bool.false_ne_true (lt_irrefl 0)
  | finite sign m e hm =>
    rw [ofUnpacked_finite, toRat_pos_iff]
    cases sign
    · exact iff_of_false Bool.false_ne_true fun h => absurd h.1 (by decide)
    · exact iff_of_true rfl ⟨rfl, hm⟩

/-- A number that is not marked negative is not negative. -/
theorem toRat_nonneg_of_unmarked {u : UnpackedFloat} (h : Unmarked u) :
    0 ≤ (ofFloat (.ofModel (.pack u))).toRat := by
  have hlt := toNat_pack_lt h
  change 0 ≤ (ofWord wide (UnpackedFloat.pack Format.binary64 u).toNat).toRat
  generalize (UnpackedFloat.pack Format.binary64 u).toNat = word at hlt ⊢
  have hsign : (word / 2 ^ 52 / 2048 % 2 == 1) = false := by
    rw [beq_eq_false_iff_ne]
    omega
  rw [ofWord_wide, hsign]
  split_ifs
  · exact le_rfl
  · exact le_rfl
  · exact toRat_nonneg_iff.mpr (.inl rfl)
  · exact toRat_nonneg_iff.mpr (.inl rfl)

/-- A sum of a number that is not negative and a positive one is not negative. -/
theorem add_nonneg_of_pos {x y : Float} (hx : x.isFinite) (hnonneg : 0 ≤ (ofFloat x).toRat)
    (hy : y.isFinite) (hpos : 0 < (ofFloat y).toRat) : 0 ≤ (ofFloat (x + y)).toRat := by
  obtain ⟨negative, n, d, hn⟩ := isFinite_iff.mp hy
  rw [hn] at hpos
  obtain ⟨rfl, hn'⟩ := toRat_pos_iff.mp hpos
  rw [ofFloat_eq] at hnonneg hn
  have hunmarked := unmarked_add hx hnonneg (e := d) hn'
  rw [← eq_finite_of_ofUnpacked hn' hn] at hunmarked
  exact toRat_nonneg_of_unmarked hunmarked

/-- A zero adds nothing. -/
theorem toRat_add_of_eq_zero {x y : Float} (hx : x.isFinite) (hy : y.isFinite)
    (hzero : (ofFloat y).toRat = 0) : (ofFloat (x + y)).toRat = (ofFloat x).toRat := by
  obtain ⟨negative, m, e, hm⟩ := isFinite_iff.mp hx
  obtain ⟨negative', n, d, hn⟩ := isFinite_iff.mp hy
  have hfits := fits_ofFloat x
  rw [hm] at hfits
  obtain rfl : n = 0 := by
    rw [hn] at hzero
    rw [toRat_of_nonneg hzero.ge, mul_eq_zero_iff_right (zpow_pos two_pos d).ne'] at hzero
    exact_mod_cast hzero
  rw [ofFloat_eq] at hn
  obtain ⟨sign, hy'⟩ := eq_zero_of_ofUnpacked hn
  change (ofFloat (.ofModel (.pack (UnpackedFloat.add Format.binary64
    x.toModel.unpack y.toModel.unpack)))).toRat = _
  rw [hy']
  cases hu : x.toModel.unpack with
  | notANumber => rw [ofFloat_eq, hu] at hm; cases hm
  | infinity => rw [ofFloat_eq, hu] at hm; cases hm
  | zero sign' =>
    have hsum : ∃ sign'', UnpackedFloat.add Format.binary64 (.zero sign')
        (.zero sign) = .zero sign'' := by
      cases sign <;> cases sign' <;> exact ⟨_, rfl⟩
    obtain ⟨sign'', hsum⟩ := hsum
    rw [hsum, ofFloat_pack rfl fits_zero, ofFloat_eq, hu, ofUnpacked_zero, toRat_zero,
      toRat_zero]
  | finite sign' m' e' hm' =>
    have hkept : UnpackedFloat.add Format.binary64 (.finite sign' m' e' hm')
        (.zero sign) = .finite sign' m' e' hm' := rfl
    rw [hkept, ← hu, hm, ofFloat_pack ((ofFloat_eq x).symm.trans hm) hfits]

end Binary

namespace StepPlan

open Binary

/-- The numbers of a frame: a positive step, and no time that is negative. The time that is due is a
number, and of no more ticks than its quotient can tell apart. -/
structure Workable (delta step residual : Float) : Prop where
  step_isFinite : step.isFinite
  step_pos : 0 < (ofFloat step).toRat
  residual_isFinite : residual.isFinite
  residual_nonneg : 0 ≤ (ofFloat residual).toRat
  delta_isFinite : delta.isFinite
  delta_nonneg : 0 ≤ (ofFloat delta).toRat
  sum_isFinite : (residual + delta).isFinite
  sum_lt : (ofFloat (residual + delta)).toRat / (ofFloat step).toRat < 2 ^ 53

section Workable

variable {delta step residual : Float}

/-- The time that is due is what was left over and the delta, also where that is not added. -/
theorem Workable.due_eq (h : Workable delta step residual) :
    (due delta residual).isFinite ∧ 0 ≤ (ofFloat (due delta residual)).toRat ∧
      (ofFloat (due delta residual)).toRat = (ofFloat (residual + delta)).toRat := by
  have hadded := ofBits_zero_lt_iff h.delta_isFinite
  by_cases hpos : 0 < (ofFloat delta).toRat
  · have hdue : due delta residual = residual + delta :=
      if_pos ⟨h.delta_isFinite, hadded.mpr hpos⟩
    rw [hdue]
    exact ⟨h.sum_isFinite,
      add_nonneg_of_pos h.residual_isFinite h.residual_nonneg h.delta_isFinite hpos, rfl⟩
  · have hdue : due delta residual = residual := if_neg fun hadds => hpos (hadded.mp hadds.2)
    have hzero := le_antisymm (not_lt.mp hpos) h.delta_nonneg
    rw [hdue]
    exact ⟨h.residual_isFinite, h.residual_nonneg,
      (toRat_add_of_eq_zero h.residual_isFinite h.delta_isFinite hzero).symm⟩

/-- The ticks that are owed are the whole part of the quotient, or one more if it is rounded up. -/
theorem Workable.toNat_owedTicks (h : Workable delta step residual) :
    (owedTicks delta step residual).toNat =
      if RoundsUp ((ofFloat (residual + delta)).toRat / (ofFloat step).toRat) then
        ⌊(ofFloat (residual + delta)).toRat / (ofFloat step).toRat⌋₊ + 1
      else ⌊(ofFloat (residual + delta)).toRat / (ofFloat step).toRat⌋₊ := by
  obtain ⟨hfinite, hnonneg, heq⟩ := h.due_eq
  have howed : owedTicks delta step residual = (due delta residual / step).toUInt64 :=
    if_pos ⟨h.step_isFinite, (ofBits_zero_lt_iff h.step_isFinite).mpr h.step_pos⟩
  rw [howed, ← heq]
  exact toNat_div hfinite hnonneg h.step_isFinite h.step_pos (heq ▸ h.sum_lt)

/-- What is left over is what whole steps leave of the time that is due. -/
theorem Workable.rest_eq (h : Workable delta step residual) (maxSteps maxBatch : Int32) :
    (take delta step maxSteps maxBatch residual).2.isFinite ∧
      Comprises (ofFloat (residual + delta)).toRat (ofFloat step).toRat
        ⌊(ofFloat (residual + delta)).toRat / (ofFloat step).toRat⌋₊
        (ofFloat (take delta step maxSteps maxBatch residual).2).toRat := by
  obtain ⟨hfinite, hnonneg, heq⟩ := h.due_eq
  have hrest : (take delta step maxSteps maxBatch residual).2 =
      exactRemainder (due delta residual) step :=
    take_eq_remainder h.step_isFinite ((ofBits_zero_lt_iff h.step_isFinite).mpr h.step_pos)
      delta maxSteps maxBatch residual
  rw [hrest, ← heq]
  exact exactRemainder_spec hfinite hnonneg h.step_isFinite h.step_pos

end Workable

/-- What a frame leaves over is exactly what whole steps leave of the time that is due. The ticks
that it takes out are told by a rounded quotient: they are as many as there are whole steps in the
time, unless the quotient is rounded up to the next whole number. Then the frame takes out one tick
more than the time holds, and count and rest no longer make up the time. -/
theorem counts_by_rounded_quotient {delta step residual : Float}
    (h : Workable delta step residual) (maxSteps maxBatch : Int32) :
    ∃ whole : ℕ, ∃ plan rest owed,
      take delta step maxSteps maxBatch residual = (plan, rest) ∧
        owed = owedTicks delta step residual ∧
        plan = ofOwed owed (atLeastOne maxSteps) (atLeastOne maxBatch) ∧
        rest.isFinite ∧
        Comprises (ofFloat (residual + delta)).toRat (ofFloat step).toRat whole
          (ofFloat rest).toRat ∧
        owed.toNat =
          (if RoundsUp ((ofFloat (residual + delta)).toRat / (ofFloat step).toRat) then whole + 1
            else whole) ∧
        (Comprises (ofFloat (residual + delta)).toRat (ofFloat step).toRat owed.toNat
            (ofFloat rest).toRat ↔
          ¬RoundsUp ((ofFloat (residual + delta)).toRat / (ofFloat step).toRat)) ∧
        ((ofFloat (residual + delta)).toRat < owed.toNat * (ofFloat step).toRat ↔
          RoundsUp ((ofFloat (residual + delta)).toRat / (ofFloat step).toRat)) := by
  obtain ⟨hfinite, hrest⟩ := h.rest_eq maxSteps maxBatch
  have howed := h.toNat_owedTicks
  refine ⟨_, (take delta step maxSteps maxBatch residual).1,
    (take delta step maxSteps maxBatch residual).2, _, rfl, rfl, take_eq_ofOwed .., hfinite,
    hrest, howed, ?_⟩
  split at howed
  case isTrue hup =>
    rw [howed]
    exact ⟨iff_of_false hrest.not_succ (not_not_intro hup), iff_of_true hrest.lt_succ hup⟩
  case isFalse hup =>
    rw [howed]
    exact ⟨iff_of_true hrest hup, iff_of_false (not_lt.mpr hrest.le) hup⟩

/-- One second. -/
def oneSecond : Float := Float.ofBits 0x3ff0000000000000

/-- The number nearest to a tenth of a second. It is a little more than that. -/
def tenthSecond : Float := Float.ofBits 0x3fb999999999999a

/-- A second holds nine steps of a tenth, and nearly another one is left over. The frame takes out
ten ticks all the same. -/
theorem counts_by_rounded_quotient_tenth :
    Workable oneSecond tenthSecond (Float.ofBits 0) ∧
      (take oneSecond tenthSecond 4 4 (Float.ofBits 0)).1.ticks = .ok 10 ∧
      (ofFloat (Float.ofBits 0 + oneSecond)).toRat <
        (owedTicks oneSecond tenthSecond (Float.ofBits 0)).toNat * (ofFloat tenthSecond).toRat := by
  have hworkable : Workable oneSecond tenthSecond (Float.ofBits 0) := by
    constructor <;> decide +kernel
  have hup :
      RoundsUp ((ofFloat (Float.ofBits 0 + oneSecond)).toRat / (ofFloat tenthSecond).toRat) := by
    decide +kernel
  obtain ⟨_, _, _, _, -, rfl, -, -, -, -, -, hmore⟩ :=
    counts_by_rounded_quotient hworkable 4 4
  exact ⟨hworkable, by decide +kernel, hmore.mpr hup⟩

end StepPlan

end Metronome
