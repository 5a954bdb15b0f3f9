import Mathlib.Algebra.Order.Field.Power
import Mathlib.Data.Rat.Floor
import Mathlib.Tactic.Linarith
import Mathlib.Tactic.NormNum
import Mathlib.Tactic.Ring
import Metronome.Binary

/-!
# Floating-point words as rationals

A word that is a number at all stands for a rational (`Binary.toRat`). A word is read by arithmetic
on its bits; the operations on floating-point numbers work on an unpacked form. Both readings agree
(`ofFloat_eq`), and an unpacked number that fits a word keeps its value when it is packed
(`ofFloat_pack`). A number of at most 53 bits within the range of a word has a word of its own
(`ofFloat_toFloat`).
-/

namespace Metronome

open Float.Model

namespace Binary

/-- The rational that a value stands for; `0` for an infinity or no number. -/
def toRat : Binary → ℚ
  | .finite negative m e => (if negative then -1 else 1) * (m * 2 ^ e)
  | _ => 0

theorem toRat_false (m : ℕ) (e : ℤ) : (finite false m e).toRat = m * 2 ^ e :=
  one_mul _

theorem toRat_true (m : ℕ) (e : ℤ) : (finite true m e).toRat = -(m * 2 ^ e) :=
  neg_one_mul _

theorem toRat_zero (negative : Bool) (e : ℤ) : (finite negative 0 e).toRat = 0 := by
  rw [toRat, Nat.cast_zero, zero_mul, mul_zero]

/-- A number is negative if it is marked so and has a mantissa. -/
theorem toRat_nonneg_iff {negative : Bool} {m : ℕ} {e : ℤ} :
    0 ≤ (finite negative m e).toRat ↔ negative = false ∨ m = 0 := by
  have hunit : (0 : ℚ) < 2 ^ e := zpow_pos two_pos e
  cases negative
  · rw [toRat_false]
    exact iff_of_true (by positivity) (.inl rfl)
  · rw [toRat_true, neg_nonneg]
    constructor
    · intro hle
      have hm : (m : ℚ) ≤ 0 := nonpos_of_mul_nonpos_left hle hunit
      exact .inr (Nat.le_zero.mp (by exact_mod_cast hm))
    · rintro (h | rfl)
      · cases h
      · rw [Nat.cast_zero, zero_mul]

/-- A number that is not negative is its mantissa in its unit. -/
theorem toRat_of_nonneg {negative : Bool} {m : ℕ} {e : ℤ}
    (h : 0 ≤ (finite negative m e).toRat) : (finite negative m e).toRat = m * 2 ^ e := by
  cases negative
  · exact toRat_false m e
  · obtain h | rfl := toRat_nonneg_iff.mp h
    · cases h
    · rw [toRat_zero, Nat.cast_zero, zero_mul]

/-- A positive number has a mantissa and is not marked negative. -/
theorem toRat_pos_iff {negative : Bool} {m : ℕ} {e : ℤ} :
    0 < (finite negative m e).toRat ↔ negative = false ∧ 0 < m := by
  have hunit : (0 : ℚ) < 2 ^ e := zpow_pos two_pos e
  cases negative
  · rw [toRat_false, mul_pos_iff_of_pos_right hunit]
    simp
  · rw [toRat_true]
    refine iff_of_false (not_lt.mpr (neg_nonpos.mpr (by positivity))) nofun

/-- The value of a word of 64 bits. -/
theorem ofWord_wide (word : ℕ) :
    ofWord wide word =
      if word / 2 ^ 52 % 2048 = 2047 then
        if word % 2 ^ 52 = 0 then .infinite (word / 2 ^ 52 / 2048 % 2 == 1) else .nan
      else if word / 2 ^ 52 % 2048 = 0 then
        .finite (word / 2 ^ 52 / 2048 % 2 == 1) (word % 2 ^ 52) (-1074)
      else
        .finite (word / 2 ^ 52 / 2048 % 2 == 1) (word % 2 ^ 52 + 2 ^ 52)
          (-1074 + (word / 2 ^ 52 % 2048 : ℕ) - 1) := by
  rfl

/-! ## Words that are unpacked -/

/-- The value of an unpacked number. -/
def ofUnpacked : UnpackedFloat → Binary
  | .notANumber => .nan
  | .infinity sign => .infinite (sign == .negative)
  | .zero sign => .finite (sign == .negative) 0 (-1074)
  | .finite sign m e _ => .finite (sign == .negative) m e

theorem ofUnpacked_infinity (sign : UnpackedFloat.Sign) :
    ofUnpacked (.infinity sign) = .infinite (sign == .negative) :=
  rfl

theorem ofUnpacked_zero (sign : UnpackedFloat.Sign) :
    ofUnpacked (.zero sign) = .finite (sign == .negative) 0 (-1074) :=
  rfl

theorem ofUnpacked_finite (sign : UnpackedFloat.Sign) (m : ℕ) (e : ℤ) (hm : 0 < m) :
    ofUnpacked (.finite sign m e hm) = .finite (sign == .negative) m e :=
  rfl

section Unpack

variable (b : BitVec 64)

theorem toNat_unpackMantissa :
    (@UnpackedFloat.unpackMantissa Format.binary64 b).toNat = b.toNat % 2 ^ 52 := by
  unfold UnpackedFloat.unpackMantissa
  rw [BitVec.toNat_cast, BitVec.extractLsb_toNat]
  rfl

theorem toNat_unpackExponent :
    (@UnpackedFloat.unpackExponent Format.binary64 b).toNat = b.toNat / 2 ^ 52 % 2048 := by
  unfold UnpackedFloat.unpackExponent
  rw [BitVec.toNat_cast, BitVec.extractLsb_toNat, Nat.shiftRight_eq_div_pow]
  rfl

theorem toNat_unpackSign :
    (@UnpackedFloat.unpackSign Format.binary64 b).toNat = b.toNat / 2 ^ 52 / 2048 % 2 := by
  unfold UnpackedFloat.unpackSign
  rw [BitVec.toNat_cast, BitVec.extractLsb_toNat, Nat.shiftRight_eq_div_pow, Nat.div_div_eq_div_mul]
  rfl

theorem sign_ofBitVec (s : BitVec 1) :
    (UnpackedFloat.Sign.ofBitVec s == .negative) = (s.toNat == 1) := by
  revert s
  decide

theorem toNat_implicit (m : BitVec 52) : (1#1 ++ m).toNat = m.toNat + 2 ^ 52 := by
  rw [BitVec.toNat_append, ← Nat.shiftLeft_add_eq_or_of_lt m.isLt, Nat.add_comm]
  rfl

/-- A word has the value that it is unpacked to. -/
theorem ofWord_toNat :
    ofWord wide b.toNat = ofUnpacked (UnpackedFloat.unpack Format.binary64 b) := by
  have hm := toNat_unpackMantissa b
  have he := toNat_unpackExponent b
  have hs := sign_ofBitVec (@UnpackedFloat.unpackSign Format.binary64 b)
  rw [toNat_unpackSign] at hs
  have htop : @UnpackedFloat.unpackExponent Format.binary64 b = -1#_ ↔
      b.toNat / 2 ^ 52 % 2048 = 2047 := by
    rw [← he, ← BitVec.toNat_inj]
    rfl
  have hleast : @UnpackedFloat.unpackExponent Format.binary64 b = 0#_ ↔
      b.toNat / 2 ^ 52 % 2048 = 0 := by
    rw [← he, ← BitVec.toNat_inj]
    rfl
  have hzero : @UnpackedFloat.unpackMantissa Format.binary64 b = 0#_ ↔
      b.toNat % 2 ^ 52 = 0 := by
    rw [← hm, ← BitVec.toNat_inj]
    rfl
  have hbias : (Format.binary64.exponentBias : ℤ) + (52 : ℕ) = 1075 := rfl
  rw [ofWord_wide]
  unfold UnpackedFloat.unpack
  dsimp only
  by_cases hfield : b.toNat / 2 ^ 52 % 2048 = 2047
  · rw [if_pos hfield, if_pos (htop.mpr hfield)]
    by_cases hfraction : b.toNat % 2 ^ 52 = 0
    · rw [if_pos hfraction, if_pos (hzero.mpr hfraction), ofUnpacked_infinity, hs]
    · rw [if_neg hfraction, if_neg fun h => hfraction (hzero.mp h)]
      rfl
  rw [if_neg hfield, if_neg fun h => hfield (htop.mp h)]
  by_cases hfield : b.toNat / 2 ^ 52 % 2048 = 0
  · rw [if_pos hfield, if_pos (hleast.mpr hfield)]
    by_cases hfraction : b.toNat % 2 ^ 52 = 0
    · rw [hfraction, dif_pos (hzero.mpr hfraction), ofUnpacked_zero, hs]
    · rw [dif_neg fun h => hfraction (hzero.mp h), ofUnpacked_finite, hs, hm, he, hfield]
      rfl
  · rw [if_neg hfield, if_neg fun h => hfield (hleast.mp h), ofUnpacked_finite, hs, he, hbias]
    congr 1
    · rw [toNat_implicit, hm]
    · omega

end Unpack

/-! ## The word of a value -/

/-- A value that a word of 64 bits can have. A short mantissa goes with the least exponent. -/
def Fits : Binary → Prop
  | .finite _ m e => m < 2 ^ 53 ∧ -1074 ≤ e ∧ e ≤ 971 ∧ (2 ^ 52 ≤ m ∨ e = -1074)
  | _ => True

theorem fits_zero {negative : Bool} : Fits (.finite negative 0 (-1074)) :=
  ⟨by norm_num, le_rfl, by norm_num, .inr rfl⟩

theorem fits_ofWord (word : ℕ) : Fits (ofWord wide word) := by
  rw [ofWord_wide]
  split_ifs
  · trivial
  · trivial
  · refine ⟨?_, ?_, ?_, ?_⟩ <;> omega
  · refine ⟨?_, ?_, ?_, ?_⟩ <;> omega

/-- The word of a number that fits. -/
def encode (negative : Bool) (m : ℕ) (e : ℤ) : ℕ :=
  (if negative then 2 ^ 63 else 0) + ((e + 1074).toNat * 2 ^ 52 + m)

theorem ofWord_encode {negative : Bool} {m : ℕ} {e : ℤ} (h : Fits (.finite negative m e)) :
    ofWord wide (encode negative m e) = .finite negative m e := by
  obtain ⟨hm, hle, hle', hlong⟩ := h
  have hfield : encode negative m e / 2 ^ 52 % 2048 = (e + 1074).toNat + m / 2 ^ 52 := by
    unfold encode
    split <;> omega
  have hfraction : encode negative m e % 2 ^ 52 = m % 2 ^ 52 := by
    unfold encode
    split <;> omega
  have hsign : (encode negative m e / 2 ^ 52 / 2048 % 2 == 1) = negative := by
    rw [Bool.eq_iff_iff, beq_iff_eq]
    unfold encode
    cases negative <;> simp only [Bool.false_eq_true, ↓reduceIte, iff_true, iff_false] <;> omega
  rw [ofWord_wide, hfield, hfraction, hsign, if_neg (by omega)]
  by_cases hshort : m < 2 ^ 52
  · rw [if_pos (by omega), Nat.mod_eq_of_lt hshort, hlong.resolve_left (by omega)]
  · rw [if_neg (by omega)]
    congr 1 <;> omega

theorem toNat_packComponents (sign : UnpackedFloat.Sign) (exponent : BitVec 11)
    (mantissa : BitVec 52) :
    (UnpackedFloat.packComponents Format.binary64 sign exponent mantissa).toNat =
      sign.toBitVec.toNat * 2 ^ 63 + (exponent.toNat * 2 ^ 52 + mantissa.toNat) := by
  unfold UnpackedFloat.packComponents
  rw [BitVec.toNat_append, ← Nat.shiftLeft_add_eq_or_of_lt mantissa.isLt,
    BitVec.toNat_append, ← Nat.shiftLeft_add_eq_or_of_lt exponent.isLt, Nat.shiftLeft_eq,
    Nat.shiftLeft_eq]
  omega

/-- A number that fits is packed with its exponent, or with none if its mantissa is short. -/
theorem pack_finite {sign : UnpackedFloat.Sign} {m : ℕ} {e : ℤ} (hpos : 0 < m) (hm : m < 2 ^ 53)
    (he : e ≤ 971) :
    UnpackedFloat.pack Format.binary64 (.finite sign m e hpos) =
      UnpackedFloat.packComponents Format.binary64 sign
        (BitVec.ofNat 11 (if 2 ^ 52 ≤ m then (e + 1075).toNat else 0)) (BitVec.ofNat 52 m) := by
  have hbits : 2 ^ Format.binary64.exponentBits = 2048 := rfl
  have hbias : (Format.binary64.exponentBias : ℤ) + (52 : ℕ) = 1075 := rfl
  have hmantissa : Format.binary64.mantissaBits = 53 := rfl
  have hlog : m.log2 + 1 = 53 ↔ 2 ^ 52 ≤ m := by
    rw [← Nat.le_log2 hpos.ne']
    have := (Nat.log2_lt hpos.ne').mpr hm
    omega
  unfold UnpackedFloat.pack
  simp only [hbits, add_assoc, hbias, hmantissa, hlog]
  rw [if_neg (by omega)]
  split <;> rfl

theorem toNat_pack {u : UnpackedFloat} {negative : Bool} {m : ℕ} {e : ℤ}
    (hu : ofUnpacked u = .finite negative m e) (h : Fits (.finite negative m e)) :
    (UnpackedFloat.pack Format.binary64 u).toNat = encode negative m e := by
  obtain ⟨hm, hle, hle', hlong⟩ := h
  cases u with
  | notANumber => cases hu
  | infinity sign => cases hu
  | zero sign =>
    cases hu
    cases sign <;> rfl
  | finite sign m e hpos =>
    cases hu
    rw [pack_finite hpos hm hle', toNat_packComponents, BitVec.toNat_ofNat, BitVec.toNat_ofNat]
    refine congrArg₂ _ (by cases sign <;> rfl) ?_
    split <;> omega

/-- A number that fits is kept when it is packed. -/
theorem ofWord_pack {u : UnpackedFloat} {negative : Bool} {m : ℕ} {e : ℤ}
    (hu : ofUnpacked u = .finite negative m e) (h : Fits (.finite negative m e)) :
    ofWord wide (UnpackedFloat.pack Format.binary64 u).toNat = .finite negative m e := by
  rw [toNat_pack hu h, ofWord_encode h]

/-! ## Numbers of 64 bits -/

/-- A number has the value that it is unpacked to. -/
theorem ofFloat_eq (x : Float) : ofFloat x = ofUnpacked x.toModel.unpack :=
  ofWord_toNat x.toBits.toBitVec

theorem fits_ofFloat (x : Float) : Fits (ofFloat x) :=
  fits_ofWord _

/-- The finite numbers are those with a sign, a mantissa and an exponent. -/
theorem isFinite_iff {x : Float} :
    x.isFinite ↔ ∃ negative m e, ofFloat x = .finite negative m e := by
  rw [ofFloat_eq]
  change x.toModel.unpack.isFinite = true ↔ _
  cases x.toModel.unpack with
  | notANumber => exact iff_of_false nofun nofun
  | infinity sign => exact iff_of_false nofun nofun
  | zero sign => exact iff_of_true rfl ⟨_, _, _, rfl⟩
  | finite sign m e hm => exact iff_of_true rfl ⟨_, _, _, rfl⟩

/-- A word of a number that is packed has its value. -/
theorem ofFloat_pack {u : UnpackedFloat} {negative : Bool} {m : ℕ} {e : ℤ}
    (hu : ofUnpacked u = .finite negative m e) (h : Fits (.finite negative m e)) :
    ofFloat (.ofModel (.pack u)) = .finite negative m e :=
  ofWord_pack hu h

theorem ofFloat_ofBits {word : UInt64} {negative : Bool} {m : ℕ} {e : ℤ}
    (h : ofWord wide word.toNat = .finite negative m e) :
    ofFloat (Float.ofBits word) = .finite negative m e :=
  ofFloat_pack ((ofWord_toNat word.toBitVec).symm.trans h) (h ▸ fits_ofWord _)

/-! ## The nearest word of a number that has one -/

/-- A number of at most 53 bits in the range of a word is not rounded. -/
theorem toWord_eq {m : ℕ} {e : ℤ} (hm : m < 2 ^ 53) (hle : -1074 ≤ e) (hle' : e ≤ 971)
    (negative : Bool) :
    ∃ m' e', Fits (.finite negative m' e') ∧ (m' * 2 ^ e' : ℚ) = m * 2 ^ e ∧
      toWord wide (.finite negative m e) = encode negative m' e' := by
  by_cases hzero : m = 0
  · subst hzero
    exact ⟨0, -1074, fits_zero, by norm_num, rfl⟩
  have hlog : m.log2 ≤ 52 := Nat.le_of_lt_succ ((Nat.log2_lt hzero).mpr hm)
  -- the exponent goes down until the mantissa has all its bits or the exponent is the least one
  obtain ⟨shift, hshift⟩ : ∃ shift : ℕ, max (e + m.log2 - 52) (-1074) = e - shift :=
    ⟨(e - max (e + m.log2 - 52) (-1074)).toNat, by omega⟩
  have hlower : 2 ^ (m.log2 + shift) ≤ m * 2 ^ shift := by
    rw [pow_add]
    exact Nat.mul_le_mul_right _ (Nat.log2_self_le hzero)
  have hupper : m * 2 ^ shift < 2 ^ (m.log2 + 1 + shift) := by
    rw [pow_add]
    exact Nat.mul_lt_mul_of_pos_right Nat.lt_log2_self (Nat.two_pow_pos _)
  have hfits : Fits (.finite negative (m * 2 ^ shift) (e - shift)) := by
    refine ⟨?_, by omega, by omega, ?_⟩
    · exact hupper.trans_le (Nat.pow_le_pow_right two_pos (by omega))
    · by_cases hleast : e - shift = -1074
      · exact .inr hleast
      · exact .inl ((Nat.pow_le_pow_right two_pos (by omega)).trans hlower)
  refine ⟨m * 2 ^ shift, e - shift, hfits, ?_, ?_⟩
  · rw [zpow_sub₀ two_ne_zero, zpow_natCast]
    push_cast
    field_simp
  · have htop : (e - shift + 1074).toNat * 2 ^ 52 + m * 2 ^ shift ≤ 2047 * 2 ^ 52 := by
      have := hfits.1
      omega
    have hround : roundWord wide m e = (e - shift + 1074).toNat * 2 ^ 52 + m * 2 ^ shift := by
      unfold roundWord
      rw [if_neg hzero]
      have hbits : ((wide.fractionBits : ℕ) : ℤ) = 52 := rfl
      have hleast : wide.leastExponent = -1074 := rfl
      have hself : (e - (e - (shift : ℤ))).toNat = shift := by omega
      simp only [hbits, hleast, hshift, hself]
      rw [if_pos (by omega), sub_neg_eq_add]
      exact min_eq_left htop
    rw [toWord, hround, encode]
    rfl

/-- A number of at most 53 bits in the range of a word has a word. -/
theorem ofFloat_toFloat {m : ℕ} {e : ℤ} (hm : m < 2 ^ 53) (hle : -1074 ≤ e) (hle' : e ≤ 971)
    (negative : Bool) :
    ∃ m' e', ofFloat (toFloat (.finite negative m e)) = .finite negative m' e' ∧
      (m' * 2 ^ e' : ℚ) = m * 2 ^ e := by
  obtain ⟨m', e', hfits, hvalue, hword⟩ := toWord_eq hm hle hle' negative
  refine ⟨m', e', ofFloat_ofBits ?_, hvalue⟩
  have hlt : encode negative m' e' < 2 ^ 64 := by
    obtain ⟨hm', -, hle', -⟩ := hfits
    unfold encode
    split <;> omega
  rw [hword, Nat.toUInt64_eq, UInt64.toNat_ofNat', Nat.mod_eq_of_lt hlt, ofWord_encode hfits]

end Binary

end Metronome
