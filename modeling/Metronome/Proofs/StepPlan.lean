import Metronome.StepPlan
import Metronome.Proofs.Outcome
import Mathlib.Algebra.GroupWithZero.Nat

/-!
# Plans that add up

A plan that a frame takes is `Fair`: no batch of it is empty. For such a plan the list of lengths
and the number of ticks exist, and the lengths sum to the ticks. `countdown` tells the lengths as a
driver does that counts down the batches that are left; the list it gives is the same
(`Fair.lengths_eq_ok`).
-/

namespace Metronome

theorem one_le_atLeastOne (limit : Int32) : 1 ≤ (atLeastOne limit).toNat := by
  have := limit.toInt_lt
  unfold atLeastOne
  rw [Nat.toUInt32_eq, UInt32.toNat_ofNat']
  omega

theorem atLeastOne_le (limit : Int32) : (atLeastOne limit).toNat ≤ 2147483647 := by
  have := limit.toInt_lt
  unfold atLeastOne
  rw [Nat.toUInt32_eq, UInt32.toNat_ofNat']
  omega

namespace StepPlan

/-- A plan that can be run: its short batches are among its batches, no batch is empty, and a signed
word can count them. -/
structure Fair (p : StepPlan) : Prop where
  short_le : p.short.toNat ≤ p.total.toNat
  length_pos : 1 ≤ p.length.toNat
  length_of_short : p.short ≠ 0 → 2 ≤ p.length.toNat
  total_le : p.total.toNat ≤ 2147483647

theorem fair_idle : idle.Fair where
  short_le := by decide
  length_pos := by decide
  length_of_short := by decide
  total_le := by decide

/-! ## The plan for a number of ticks -/

section Owed

variable {owed : UInt64} {steps batchLimit : UInt32}

/-- Ticks that the frame can run one by one make a batch each. -/
theorem ofOwed_of_le (h : owed.toNat ≤ steps.toNat) :
    ofOwed owed steps batchLimit = ⟨owed.toUInt32, 0, 1⟩ := by
  have hle : owed ≤ steps.toUInt64 := by
    rwa [UInt64.le_iff_toNat_le, UInt32.toNat_toUInt64]
  simp [ofOwed, hle]

/-- The ticks of a long batch, if `owed` ticks are merged into `steps` batches. -/
def merged (owed : UInt64) (steps : UInt32) : Nat :=
  (owed.toNat - 1) / steps.toNat + 1

theorem toNat_merged (hs : 1 ≤ steps.toNat) (h : steps.toNat < owed.toNat) :
    ((owed - 1) / steps.toUInt64 + 1).toNat = merged owed steps := by
  have h1 : (1 : UInt64).toNat = 1 := rfl
  have hlt := owed.toNat_lt
  have hsub : (owed - 1).toNat = owed.toNat - 1 := by
    rw [UInt64.toNat_sub_of_le _ _ (by rw [UInt64.le_iff_toNat_le, h1]; omega), h1]
  have hdiv := Nat.div_le_self (owed.toNat - 1) steps.toNat
  rw [UInt64.toNat_add, UInt64.toNat_div, hsub, UInt32.toNat_toUInt64, h1, merged,
    Nat.mod_eq_of_lt (by omega)]

/-- Merged batches that are too long are cut to the longest, and the frame drops the rest. -/
theorem ofOwed_of_lt_merged (hs : 1 ≤ steps.toNat) (h : steps.toNat < owed.toNat)
    (hlong : batchLimit.toNat < merged owed steps) :
    ofOwed owed steps batchLimit = ⟨steps, 0, batchLimit⟩ := by
  have hnot : ¬owed ≤ steps.toUInt64 := by
    rw [UInt64.le_iff_toNat_le, UInt32.toNat_toUInt64]
    omega
  have hover : (owed - 1) / steps.toUInt64 + 1 > batchLimit.toUInt64 := by
    rw [gt_iff_lt, UInt64.lt_iff_toNat_lt, toNat_merged hs h, UInt32.toNat_toUInt64]
    exact hlong
  simp [ofOwed, hnot, hover]

/-- Merged batches that are short enough take all ticks. -/
theorem ofOwed_of_merged_le (hs : 1 ≤ steps.toNat) (h : steps.toNat < owed.toNat)
    (hfit : merged owed steps ≤ batchLimit.toNat) :
    ∃ short length : UInt32, ofOwed owed steps batchLimit = ⟨steps, short, length⟩ ∧
      short.toNat + owed.toNat = steps.toNat * merged owed steps ∧ short.toNat < steps.toNat ∧
      length.toNat = merged owed steps ∧ 2 ≤ merged owed steps := by
  have hnot : ¬owed ≤ steps.toUInt64 := by
    rw [UInt64.le_iff_toNat_le, UInt32.toNat_toUInt64]
    omega
  have hmerged := toNat_merged hs h
  have hover : ¬(owed - 1) / steps.toUInt64 + 1 > batchLimit.toUInt64 := by
    rw [gt_iff_lt, UInt64.lt_iff_toNat_lt, hmerged, UInt32.toNat_toUInt64]
    omega
  obtain ⟨length, hlength⟩ : ∃ length, length = (owed - 1) / steps.toUInt64 + 1 := ⟨_, rfl⟩
  rw [← hlength] at hmerged hover
  -- as many ticks as `steps` batches of this length hold, less than `steps` of them not owed
  have hceil : steps.toNat * merged owed steps =
      owed.toNat + (steps.toNat - 1 - (owed.toNat - 1) % steps.toNat) := by
    have hdiv := Nat.div_add_mod (owed.toNat - 1) steps.toNat
    have hmod := Nat.mod_lt (owed.toNat - 1) (Nat.lt_of_succ_le hs)
    rw [merged, Nat.mul_succ]
    omega
  have htwo : 2 ≤ merged owed steps := by
    have := Nat.div_pos (by omega : steps.toNat ≤ owed.toNat - 1) (Nat.lt_of_succ_le hs)
    unfold merged
    omega
  have hslt := steps.toNat_lt
  have hblt := batchLimit.toNat_lt
  have hprod : (length * steps.toUInt64).toNat = steps.toNat * merged owed steps := by
    have hbound : steps.toNat * merged owed steps < 4294967296 * 4294967296 :=
      Nat.mul_lt_mul'' hslt (Nat.lt_of_le_of_lt hfit hblt)
    rw [UInt64.toNat_mul, hmerged, UInt32.toNat_toUInt64, Nat.mul_comm, Nat.mod_eq_of_lt (by omega)]
  have hshort : (length * steps.toUInt64 - owed).toNat =
      steps.toNat - 1 - (owed.toNat - 1) % steps.toNat := by
    rw [UInt64.toNat_sub_of_le _ _ (by rw [UInt64.le_iff_toNat_le]; omega), hprod]
    omega
  refine ⟨(length * steps.toUInt64 - owed).toUInt32, length.toUInt32, ?_, ?_, ?_, ?_, htwo⟩
  · simp [ofOwed, hnot, ← hlength, hover]
  · rw [UInt64.toNat_toUInt32, hshort, Nat.mod_eq_of_lt (by omega)]
    omega
  · rw [UInt64.toNat_toUInt32, hshort, Nat.mod_eq_of_lt (by omega)]
    omega
  · rw [UInt64.toNat_toUInt32, hmerged, Nat.mod_eq_of_lt (by omega)]

/-- The plan for any number of ticks is fair. -/
theorem fair_ofOwed (owed : UInt64) (maxSteps maxBatch : Int32) :
    (ofOwed owed (atLeastOne maxSteps) (atLeastOne maxBatch)).Fair := by
  have hs := one_le_atLeastOne maxSteps
  have hs' := atLeastOne_le maxSteps
  have hb := one_le_atLeastOne maxBatch
  by_cases hle : owed.toNat ≤ (atLeastOne maxSteps).toNat
  · rw [ofOwed_of_le hle]
    have howed : owed.toUInt32.toNat ≤ owed.toNat := by
      rw [UInt64.toNat_toUInt32]
      exact Nat.mod_le _ _
    exact ⟨Nat.zero_le _, Nat.le_refl 1, fun h => absurd rfl h,
      Nat.le_trans howed (Nat.le_trans hle hs')⟩
  by_cases hfit : merged owed (atLeastOne maxSteps) ≤ (atLeastOne maxBatch).toNat
  · obtain ⟨short, length, heq, -, hshort, hlength, htwo⟩ :=
      ofOwed_of_merged_le hs (by omega) hfit
    rw [heq]
    rw [← hlength] at htwo
    exact ⟨Nat.le_of_lt hshort, Nat.le_of_succ_le htwo, fun _ => htwo, hs'⟩
  · rw [ofOwed_of_lt_merged hs (by omega) (by omega)]
    exact ⟨Nat.zero_le _, hb, fun h => absurd rfl h, hs'⟩

/-- Merged batches are longer than a limit exactly if batches of the limit do not take all ticks. -/
theorem lt_merged_iff (hs : 1 ≤ steps.toNat) (h : steps.toNat < owed.toNat) (n : Nat) :
    n < merged owed steps ↔ steps.toNat * n < owed.toNat := by
  rw [merged, Nat.lt_succ_iff, Nat.le_div_iff_mul_le hs, Nat.mul_comm]
  omega

/-- The plan runs the ticks that are owed, up to as many as all batches of the limit hold. -/
theorem ticks_ofOwed (owed : UInt64) (maxSteps maxBatch : Int32) :
    (ofOwed owed (atLeastOne maxSteps) (atLeastOne maxBatch)).ticks =
      .ok (min owed.toNat ((atLeastOne maxSteps).toNat * (atLeastOne maxBatch).toNat)) := by
  have hs := one_le_atLeastOne maxSteps
  have hs' := atLeastOne_le maxSteps
  have hb := one_le_atLeastOne maxBatch
  by_cases hle : owed.toNat ≤ (atLeastOne maxSteps).toNat
  · have hroom := Nat.le_mul_of_pos_right (atLeastOne maxSteps).toNat hb
    have howed : owed.toUInt32.toNat = owed.toNat := by
      rw [UInt64.toNat_toUInt32, Nat.mod_eq_of_lt (by omega)]
    rw [ofOwed_of_le hle, Nat.min_eq_left (by omega)]
    simp [ticks, howed]
  have hmany : (atLeastOne maxSteps).toNat < owed.toNat := by omega
  have hclamp := lt_merged_iff hs hmany (atLeastOne maxBatch).toNat
  by_cases hfit : merged owed (atLeastOne maxSteps) ≤ (atLeastOne maxBatch).toNat
  · obtain ⟨short, length, heq, hsum, -, hlength, -⟩ := ofOwed_of_merged_le hs hmany hfit
    rw [heq, Nat.min_eq_left (by omega)]
    simp [ticks, hlength, ← hsum]
  · rw [ofOwed_of_lt_merged hs hmany (by omega), Nat.min_eq_right (by omega)]
    simp [ticks]

end Owed

variable {τ : Type} [Seconds τ]

/-- Every plan that is taken out of the elapsed time is fair. -/
theorem fair_take (delta step : τ) (maxSteps maxBatch : Int32) (residual : τ) :
    (take delta step maxSteps maxBatch residual).1.Fair := by
  unfold take
  split
  · exact fair_ofOwed _ maxSteps maxBatch
  · exact fair_idle

/-! ## Lengths and ticks -/

/-- The lengths of the last `n` batches. -/
def countdown (p : StepPlan) : Nat → List UInt32
  | 0 => []
  | n + 1 => (if n + 1 ≤ p.short.toNat then p.length - 1 else p.length) :: countdown p n

@[simp] theorem length_countdown (p : StepPlan) (n : Nat) : (p.countdown n).length = n := by
  induction n with
  | zero => rfl
  | succ n ih => simp [countdown, ih]

/-- Of the last batches first the long ones are left, then only short ones. -/
theorem countdown_eq (p : StepPlan) (n : Nat) :
    p.countdown n = List.replicate (n - p.short.toNat) p.length ++
      List.replicate (min n p.short.toNat) (p.length - 1) := by
  induction n with
  | zero => simp [countdown]
  | succ n ih =>
    rw [countdown, ih]
    by_cases h : n + 1 ≤ p.short.toNat
    · have hlong : n - p.short.toNat = 0 := by omega
      have hlong' : n + 1 - p.short.toNat = 0 := by omega
      rw [if_pos h, hlong, hlong', Nat.min_eq_left (by omega), Nat.min_eq_left h]
      rfl
    · have hlong : n + 1 - p.short.toNat = n - p.short.toNat + 1 := by omega
      rw [if_neg h, hlong, Nat.min_eq_right (by omega), Nat.min_eq_right (by omega)]
      rfl

variable {p : StepPlan}

/-- No batch of a fair plan is empty. -/
theorem Fair.one_le_of_mem (h : p.Fair) {n : Nat} {x : UInt32} (hx : x ∈ p.countdown n) :
    1 ≤ x.toNat := by
  have h1 : (1 : UInt32).toNat = 1 := rfl
  rw [countdown_eq] at hx
  rcases List.mem_append.mp hx with hx | hx
  · obtain rfl := List.eq_of_mem_replicate hx
    exact h.length_pos
  · obtain ⟨hpos, rfl⟩ := List.mem_replicate.mp hx
    have hshort : p.short ≠ 0 := by
      intro hzero
      simp [hzero] at hpos
    have := h.length_of_short hshort
    rw [UInt32.toNat_sub_of_le _ _ (UInt32.le_iff_toNat_le.mpr (by omega))]
    omega

/-- The countdown over the whole plan tells its lengths. -/
theorem Fair.lengths_eq_ok (h : p.Fair) : p.lengths = .ok (p.countdown p.total.toNat) := by
  have h1 : (1 : UInt32).toNat = 1 := rfl
  have hlong : subChecked p.total p.short = .ok (p.total - p.short) :=
    subChecked_eq_ok (UInt32.le_iff_toNat_le.mpr h.short_le)
  have hcount : (p.total - p.short).toNat = p.total.toNat - p.short.toNat :=
    UInt32.toNat_sub_of_le _ _ (UInt32.le_iff_toNat_le.mpr h.short_le)
  unfold lengths
  rw [countdown_eq, Nat.min_eq_right h.short_le, hlong, ok_bind, hcount]
  by_cases hshort : p.short = 0
  · simp [hshort]
  · have hlength : subChecked p.length 1 = .ok (p.length - 1) :=
      subChecked_eq_ok (UInt32.le_iff_toNat_le.mpr (h1 ▸ h.length_pos))
    simp [hshort, hlength]

theorem sum_countdown (hpos : 1 ≤ p.length.toNat) (n : Nat) :
    ((p.countdown n).map UInt32.toNat).sum + min n p.short.toNat = n * p.length.toNat := by
  have h1 : (1 : UInt32).toNat = 1 := rfl
  have hless : (p.length - 1).toNat = p.length.toNat - 1 :=
    UInt32.toNat_sub_of_le _ _ (UInt32.le_iff_toNat_le.mpr hpos)
  induction n with
  | zero => simp [countdown]
  | succ n ih =>
    rw [countdown, List.map_cons, List.sum_cons, Nat.succ_mul]
    split <;> omega

/-- The ticks of a fair plan are the sum of its lengths. -/
theorem Fair.ticks_eq_ok (h : p.Fair) :
    p.ticks = .ok ((p.countdown p.total.toNat).map UInt32.toNat).sum := by
  have hsum := sum_countdown h.length_pos p.total.toNat
  rw [Nat.min_eq_right h.short_le] at hsum
  rw [ticks, if_pos (by omega)]
  congr 1
  omega

end StepPlan

end Metronome
