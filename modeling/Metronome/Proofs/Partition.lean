import Metronome.Clock.Exact
import Metronome.Proofs.StepPlan

/-!
# Plans that divide evenly

A frame divides the ticks that it owes among at most `steps` batches. The batches differ by one tick
at most, the longer ones come first, none is empty and none longer than the limit; together they
hold as many of the owed ticks as so many batches of the limit can (`Even`).

The plan is computed on words. `ofOwedExact` computes it a second time on whole numbers, along the
same path, and gives up where a result does not fit the word it is kept in. It never gives up, and
comes to the same plan (`ofOwedExact_eq`), so nothing is lost on the way.
-/

namespace Metronome

/-- The word of 64 bits that a whole number fits into. -/
def fitWide (n : Int) : Option UInt64 :=
  if 0 ≤ n ∧ n < (UInt64.size : Nat) then some n.toNat.toUInt64 else none

/-- The word of 32 bits that a whole number fits into. -/
def fitNarrow (n : Int) : Option UInt32 :=
  if 0 ≤ n ∧ n < (UInt32.size : Nat) then some n.toNat.toUInt32 else none

theorem fitWide_eq_some {n : Int} {w : UInt64} (h : n = w.toNat) : fitWide n = some w := by
  have hlt : w.toNat < UInt64.size := w.toNat_lt_size
  subst h
  rw [fitWide, if_pos ⟨by omega, by omega⟩, Int.toNat_natCast, Nat.toUInt64_eq, UInt64.ofNat_toNat]

theorem fitWide_natCast {n : Nat} (h : n < UInt64.size) :
    fitWide (n : Int) = some (UInt64.ofNatLT n h) :=
  fitWide_eq_some (by rw [UInt64.toNat_ofNatLT])

theorem fitNarrow_eq_some {n : Int} {w : UInt32} (h : n = w.toNat) : fitNarrow n = some w := by
  have hlt : w.toNat < UInt32.size := w.toNat_lt_size
  subst h
  rw [fitNarrow, if_pos ⟨by omega, by omega⟩, Int.toNat_natCast, Nat.toUInt32_eq,
    UInt32.ofNat_toNat]

/-- How much a limit allows. A limit below one counts as one. -/
def allowance (limit : Int32) : Nat :=
  (max limit.toInt 1).toNat

theorem toNat_atLeastOne (limit : Int32) : (atLeastOne limit).toNat = allowance limit := by
  have := limit.toInt_lt
  unfold atLeastOne allowance
  rw [Nat.toUInt32_eq, UInt32.toNat_ofNat']
  omega

theorem bind_eq_some {α β : Type} {x : Option α} {f : α → Option β} {a : α} {b : β}
    (hx : x = some a) (hf : f a = some b) : (x >>= f) = some b := by
  rw [hx]
  exact hf

namespace StepPlan

/-- The quotient of two words, rounded up. -/
def divUpExact (a b : UInt64) : Option UInt64 := do
  if b = 0 then none
  else
    let quotient ← fitWide (a.toNat / b.toNat : Nat)
    if a.toNat % b.toNat = 0 then return quotient else fitWide (quotient.toNat + 1 : Nat)

/-- The plan for a number of owed ticks and the ticks that it drops, computed on whole numbers.
Every result has to fit the word that it is kept in. -/
def ofOwedExact (owed : UInt64) (maxSteps maxBatch : Int32) : Option (StepPlan × UInt64) := do
  let steps ← fitWide (max maxSteps.toInt 1)
  let batchLimit ← fitWide (max maxBatch.toInt 1)
  if owed ≤ steps then
    let total ← fitNarrow owed.toNat
    return (⟨total, 0, 1⟩, 0)
  else
    let length ← divUpExact owed steps
    let total ← fitNarrow steps.toNat
    if batchLimit < length then
      let room ← fitWide (steps.toNat * batchLimit.toNat : Nat)
      let dropped ← fitWide (owed.toNat - room.toNat : Int)
      let longest ← fitNarrow batchLimit.toNat
      return (⟨total, 0, longest⟩, dropped)
    else
      let room ← fitWide (length.toNat * steps.toNat : Nat)
      let missing ← fitWide (room.toNat - owed.toNat : Int)
      let short ← fitNarrow missing.toNat
      let long ← fitNarrow length.toNat
      return (⟨total, short, long⟩, 0)

/-- The ticks of a plan, computed on whole numbers. Every result has to fit the word that it is kept
in. -/
def ticksExact (p : StepPlan) : Option UInt64 := do
  let room ← fitWide (p.total.toNat * p.length.toNat : Nat)
  fitWide (room.toNat - p.short.toNat : Int)

/-- The ticks beyond the longest plan. -/
def excess (owed : UInt64) (steps batchLimit : UInt32) : UInt64 :=
  (owed.toNat - steps.toNat * batchLimit.toNat : Nat).toUInt64

theorem toNat_excess (owed : UInt64) (steps batchLimit : UInt32) :
    (excess owed steps batchLimit).toNat = owed.toNat - steps.toNat * batchLimit.toNat := by
  have := owed.toNat_lt
  rw [excess, Nat.toUInt64_eq, UInt64.toNat_ofNat']
  exact Nat.mod_eq_of_lt (by omega)

/-! ## No result is lost -/

section Exact

variable {owed : UInt64} {steps batchLimit : UInt32}

/-- The ticks of a long batch are the quotient rounded up. -/
theorem merged_eq (hs : 1 ≤ steps.toNat) (h : steps.toNat < owed.toNat) :
    merged owed steps = owed.toNat / steps.toNat +
      if owed.toNat % steps.toNat = 0 then 0 else 1 := by
  have hdiv := Nat.div_add_mod' owed.toNat steps.toNat
  have hmod := Nat.mod_lt owed.toNat (Nat.lt_of_succ_le hs)
  have hpos := Nat.div_pos (Nat.le_of_lt h) (Nat.lt_of_succ_le hs)
  obtain ⟨quotient, hquotient⟩ := Nat.exists_eq_add_of_lt hpos
  rw [Nat.zero_add] at hquotient
  rw [hquotient] at hdiv ⊢
  have hsucc := Nat.add_one_mul quotient steps.toNat
  have hsucc' := Nat.add_one_mul (quotient + 1) steps.toNat
  rw [merged]
  split
  · rw [Nat.div_eq_of_lt_le (k := quotient) (by omega) (by omega)]
  · rw [Nat.div_eq_of_lt_le (k := quotient + 1) (by omega) (by omega)]

theorem fitWide_steps (limit : Int32) :
    fitWide (max limit.toInt 1) = some (atLeastOne limit).toUInt64 :=
  fitWide_eq_some (by rw [UInt32.toNat_toUInt64, toNat_atLeastOne, allowance]; omega)

/-- Two counters multiply to a number that a word of twice their length holds. -/
theorem mul_toNat_lt (a b : UInt32) : a.toNat * b.toNat < UInt64.size :=
  Nat.mul_lt_mul'' a.toNat_lt b.toNat_lt

theorem excess_eq_zero (h : owed.toNat ≤ steps.toNat * batchLimit.toNat) :
    excess owed steps batchLimit = 0 := by
  rw [excess, Nat.sub_eq_zero_of_le h]
  rfl

/-- The ticks of a long batch fit their word. -/
theorem divUpExact_steps (hs : 1 ≤ steps.toNat) (h : steps.toNat < owed.toNat) :
    divUpExact owed steps.toUInt64 = some ((owed - 1) / steps.toUInt64 + 1) := by
  have hwide : steps.toUInt64.toNat = steps.toNat := UInt32.toNat_toUInt64 steps
  have hdiv : (owed / steps.toUInt64).toNat = owed.toNat / steps.toNat := by
    rw [UInt64.toNat_div, hwide]
  have hlength := (toNat_merged hs h).trans (merged_eq hs h)
  have hzero : steps.toUInt64 ≠ 0 := by
    intro hzero
    have hnone : steps.toUInt64.toNat = 0 := by rw [hzero]; rfl
    omega
  rw [divUpExact, if_neg hzero]
  refine bind_eq_some (fitWide_eq_some (w := owed / steps.toUInt64) (by rw [hdiv, hwide])) ?_
  rw [hwide, hdiv]
  split
  case isTrue hrest =>
    rw [if_pos hrest, Nat.add_zero, ← hdiv] at hlength
    exact congrArg some (UInt64.toNat_inj.mp hlength).symm
  case isFalse hrest =>
    rw [if_neg hrest] at hlength
    exact fitWide_eq_some (by rw [hlength])

/-- Computed on whole numbers the plan is the same. -/
theorem ofOwedExact_eq (owed : UInt64) (maxSteps maxBatch : Int32) :
    ofOwedExact owed maxSteps maxBatch =
      some (ofOwed owed (atLeastOne maxSteps) (atLeastOne maxBatch),
        excess owed (atLeastOne maxSteps) (atLeastOne maxBatch)) := by
  have hs := one_le_atLeastOne maxSteps
  have hs' := atLeastOne_le maxSteps
  have hb := one_le_atLeastOne maxBatch
  refine bind_eq_some (fitWide_steps maxSteps) (bind_eq_some (fitWide_steps maxBatch) ?_)
  generalize atLeastOne maxSteps = steps at *
  generalize atLeastOne maxBatch = batchLimit at *
  have hwide : steps.toUInt64.toNat = steps.toNat := UInt32.toNat_toUInt64 steps
  have hwide' : batchLimit.toUInt64.toNat = batchLimit.toNat := UInt32.toNat_toUInt64 batchLimit
  have hlimit := mul_toNat_lt steps batchLimit
  by_cases hle : owed.toNat ≤ steps.toNat
  · have hroom := Nat.le_mul_of_pos_right steps.toNat hb
    have htotal : (owed.toNat : Int) = owed.toUInt32.toNat := by
      rw [UInt64.toNat_toUInt32, Nat.mod_eq_of_lt (by omega)]
    rw [if_pos (UInt64.le_iff_toNat_le.mpr (by omega)), ofOwed_of_le hle,
      excess_eq_zero (by omega)]
    exact bind_eq_some (fitNarrow_eq_some htotal) rfl
  have hmany : steps.toNat < owed.toNat := by omega
  have hclamp := lt_merged_iff hs hmany batchLimit.toNat
  have hlength := toNat_merged hs hmany
  rw [if_neg fun h => hle (hwide ▸ UInt64.le_iff_toNat_le.mp h)]
  refine bind_eq_some (divUpExact_steps hs hmany)
    (bind_eq_some (fitNarrow_eq_some (w := steps) ?_) ?_)
  · rw [hwide]
  generalize (owed - 1) / steps.toUInt64 + 1 = length at *
  by_cases hfit : merged owed steps ≤ batchLimit.toNat
  · obtain ⟨short, long, heq, hsum, hshort, hlong, -⟩ := ofOwed_of_merged_le hs hmany hfit
    have hroom : length.toNat * steps.toNat = short.toNat + owed.toNat := by
      rw [hsum, hlength, Nat.mul_comm]
    have hroom' : steps.toNat * merged owed steps ≤ steps.toNat * batchLimit.toNat :=
      Nat.mul_le_mul_left steps.toNat hfit
    rw [if_neg fun h => by have := UInt64.lt_iff_toNat_lt.mp h; omega, heq,
      excess_eq_zero (by omega), hwide, hroom]
    exact bind_eq_some (fitWide_natCast (by omega))
      (bind_eq_some (fitWide_eq_some (w := short.toUInt64)
          (by rw [UInt64.toNat_ofNatLT, UInt32.toNat_toUInt64]; omega))
        (bind_eq_some (fitNarrow_eq_some (w := short) (by rw [UInt32.toNat_toUInt64]))
          (bind_eq_some (fitNarrow_eq_some (w := long) (by omega)) rfl)))
  · rw [if_pos (UInt64.lt_iff_toNat_lt.mpr (by omega)), ofOwed_of_lt_merged hs hmany (by omega),
      hwide, hwide']
    have hexcess := toNat_excess owed steps batchLimit
    exact bind_eq_some (fitWide_natCast hlimit)
      (bind_eq_some (fitWide_eq_some (w := excess owed steps batchLimit)
          (by rw [UInt64.toNat_ofNatLT]; omega))
        (bind_eq_some (fitNarrow_eq_some (w := batchLimit) rfl) rfl))

example : ofOwedExact 10 4 3 = some (⟨4, 2, 3⟩, 0) := by decide

example : ofOwedExact 14 4 3 = some (⟨4, 0, 3⟩, 2) := by decide

/-- The ticks of a fair plan fit their word. -/
theorem Fair.ticksExact_eq {p : StepPlan} (h : p.Fair) :
    ∃ ticks, p.ticksExact = some ticks ∧ p.ticks = .ok ticks.toNat := by
  have hroom := mul_toNat_lt p.total p.length
  have hshort : p.short.toNat ≤ p.total.toNat * p.length.toNat :=
    Nat.le_trans h.short_le (Nat.le_mul_of_pos_right p.total.toNat h.length_pos)
  refine ⟨.ofNatLT (p.total.toNat * p.length.toNat - p.short.toNat) (by omega), ?_, ?_⟩
  · refine bind_eq_some (fitWide_natCast hroom) (fitWide_eq_some ?_)
    rw [UInt64.toNat_ofNatLT, UInt64.toNat_ofNatLT]
    omega
  · rw [UInt64.toNat_ofNatLT]
    exact if_pos hshort

end Exact

/-! ## Even batches -/

/-- The lengths of the batches divide `owed` ticks among `steps` batches evenly, as far as the limit
of a batch allows. -/
structure Even (owed steps batchLimit : Nat) (lengths : List UInt32) : Prop where
  count : lengths.length = min owed steps
  descending : lengths.Pairwise fun x y => y ≤ x
  differ_le : ∀ x ∈ lengths, ∀ y ∈ lengths, x.toNat ≤ y.toNat + 1
  one_le : ∀ x ∈ lengths, 1 ≤ x.toNat
  le_limit : ∀ x ∈ lengths, x.toNat ≤ batchLimit
  sum_eq : (lengths.map UInt32.toNat).sum = min owed (steps * batchLimit)

section Even

variable {p : StepPlan}

/-- A batch is a long one or a tick shorter. -/
theorem Fair.near_length (h : p.Fair) {n : Nat} {x : UInt32} (hx : x ∈ p.countdown n) :
    x.toNat ≤ p.length.toNat ∧ p.length.toNat ≤ x.toNat + 1 := by
  have h1 : (1 : UInt32).toNat = 1 := rfl
  have hpos := h.length_pos
  rw [countdown_eq] at hx
  rcases List.mem_append.mp hx with hx | hx
  · obtain rfl := List.eq_of_mem_replicate hx
    omega
  · obtain rfl := List.eq_of_mem_replicate hx
    rw [UInt32.toNat_sub_of_le _ _ (UInt32.le_iff_toNat_le.mpr (h1 ▸ hpos))]
    omega

/-- The longer batches run first. -/
theorem Fair.descending (h : p.Fair) (n : Nat) : (p.countdown n).Pairwise fun x y => y ≤ x := by
  have h1 : (1 : UInt32).toNat = 1 := rfl
  have hpos := h.length_pos
  rw [countdown_eq, List.pairwise_append]
  refine ⟨List.pairwise_replicate.mpr (.inr (UInt32.le_refl _)),
    List.pairwise_replicate.mpr (.inr (UInt32.le_refl _)), ?_⟩
  intro x hx y hy
  obtain rfl := List.eq_of_mem_replicate hx
  obtain rfl := List.eq_of_mem_replicate hy
  rw [UInt32.le_iff_toNat_le, UInt32.toNat_sub_of_le _ _ (UInt32.le_iff_toNat_le.mpr (h1 ▸ hpos))]
  omega

variable (owed : UInt64) {steps batchLimit : UInt32}

variable (batchLimit) in
theorem total_ofOwed (hs : 1 ≤ steps.toNat) :
    (ofOwed owed steps batchLimit).total.toNat = min owed.toNat steps.toNat := by
  have := steps.toNat_lt
  by_cases hle : owed.toNat ≤ steps.toNat
  · rw [ofOwed_of_le hle, UInt64.toNat_toUInt32]
    omega
  by_cases hfit : merged owed steps ≤ batchLimit.toNat
  · obtain ⟨short, length, heq, -⟩ := ofOwed_of_merged_le hs (by omega) hfit
    rw [heq]
    exact (Nat.min_eq_right (Nat.le_of_not_le hle)).symm
  · rw [ofOwed_of_lt_merged hs (by omega) (by omega)]
    exact (Nat.min_eq_right (Nat.le_of_not_le hle)).symm

theorem length_ofOwed_le (hs : 1 ≤ steps.toNat) (hb : 1 ≤ batchLimit.toNat) :
    (ofOwed owed steps batchLimit).length.toNat ≤ batchLimit.toNat := by
  by_cases hle : owed.toNat ≤ steps.toNat
  · rw [ofOwed_of_le hle]
    exact hb
  by_cases hfit : merged owed steps ≤ batchLimit.toNat
  · obtain ⟨short, length, heq, -, -, hlength, -⟩ := ofOwed_of_merged_le hs (by omega) hfit
    rw [heq]
    exact hlength ▸ hfit
  · have heq : ofOwed owed steps batchLimit = ⟨steps, 0, batchLimit⟩ :=
      ofOwed_of_lt_merged hs (by omega) (by omega)
    exact Nat.le_of_eq (congrArg (fun p => p.length.toNat) heq)

end Even

/-- The batches of the plan for any number of ticks are even. -/
theorem even_ofOwed (owed : UInt64) (maxSteps maxBatch : Int32) :
    ∃ lengths, (ofOwed owed (atLeastOne maxSteps) (atLeastOne maxBatch)).lengths = .ok lengths ∧
      Even owed.toNat (allowance maxSteps) (allowance maxBatch) lengths := by
  have hfair := fair_ofOwed owed maxSteps maxBatch
  have hsteps := one_le_atLeastOne maxSteps
  have hlimit := length_ofOwed_le owed hsteps (one_le_atLeastOne maxBatch)
  have htotal := total_ofOwed owed (atLeastOne maxBatch) hsteps
  have hsum := hfair.ticks_eq_ok.symm.trans (ticks_ofOwed owed maxSteps maxBatch)
  rw [toNat_atLeastOne] at htotal hlimit
  rw [toNat_atLeastOne, toNat_atLeastOne] at hsum
  refine ⟨_, hfair.lengths_eq_ok, ?_⟩
  constructor
  case count => rw [length_countdown, htotal]
  case descending => exact hfair.descending _
  case differ_le =>
    intro x hx y hy
    have := hfair.near_length hx
    have := hfair.near_length hy
    omega
  case one_le => exact fun x hx => hfair.one_le_of_mem hx
  case le_limit => exact fun x hx => Nat.le_trans (hfair.near_length hx).1 hlimit
  case sum_eq => exact Except.ok.inj hsum

/-! ## The plan of a frame -/

section Take

variable {τ : Type} [Seconds τ]

/-- The time that is due in a frame. A delta that is no positive number counts as none. -/
def due (delta residual : τ) : τ :=
  if Seconds.isFinite delta ∧ 0 < delta then residual + delta else residual

/-- The whole ticks that a frame owes. -/
def owedTicks (delta step residual : τ) : UInt64 :=
  if Seconds.isFinite step ∧ 0 < step then Seconds.wholeUnits (due delta residual) step else 0

/-- The plan of a frame is the plan for the ticks that it owes. -/
theorem take_eq_ofOwed (delta step : τ) (maxSteps maxBatch : Int32) (residual : τ) :
    (take delta step maxSteps maxBatch residual).1 =
      ofOwed (owedTicks delta step residual) (atLeastOne maxSteps) (atLeastOne maxBatch) := by
  unfold take owedTicks
  split
  · rfl
  · rw [ofOwed_of_le (Nat.zero_le _)]
    rfl

/-- What a frame leaves is the remainder of the time that is due. -/
theorem take_eq_remainder {step : τ} (hfinite : Seconds.isFinite step = true) (hpos : 0 < step)
    (delta : τ) (maxSteps maxBatch : Int32) (residual : τ) :
    (take delta step maxSteps maxBatch residual).2 =
      Seconds.remainder (due delta residual) step := by
  unfold take
  rw [if_pos ⟨hfinite, hpos⟩]
  rfl

end Take

/-- However many ticks are owed and whatever the limits, the plan and everything read off it is
computed without a loss: no result leaves its word. The plan divides the owed ticks evenly into
batches and drops exactly those beyond the longest plan. It is the plan of every frame that owes so
many. -/
theorem divides_evenly (owed : UInt64) (maxSteps maxBatch : Int32) :
    ∃ plan dropped lengths ticks,
      ofOwedExact owed maxSteps maxBatch = some (plan, dropped) ∧
        plan = ofOwed owed (atLeastOne maxSteps) (atLeastOne maxBatch) ∧
        plan.total.toNat = min owed.toNat (allowance maxSteps) ∧
        plan.lengths = .ok lengths ∧
        Even owed.toNat (allowance maxSteps) (allowance maxBatch) lengths ∧
        plan.ticksExact = some ticks ∧ plan.ticks = .ok ticks.toNat ∧
        (lengths.map UInt32.toNat).sum = ticks.toNat ∧
        (0 < dropped ↔ allowance maxSteps * allowance maxBatch < owed.toNat) ∧
        dropped.toNat = owed.toNat - allowance maxSteps * allowance maxBatch ∧
        ∀ (τ : Type) [Seconds τ] (delta step residual : τ), owedTicks delta step residual = owed →
          (take delta step maxSteps maxBatch residual).1 = plan := by
  obtain ⟨lengths, hlengths, heven⟩ := even_ofOwed owed maxSteps maxBatch
  obtain ⟨ticks, hexact, hticks⟩ := (fair_ofOwed owed maxSteps maxBatch).ticksExact_eq
  have htotal := total_ofOwed owed (atLeastOne maxBatch) (one_le_atLeastOne maxSteps)
  have hsum := Except.ok.inj (hticks.symm.trans (ticks_ofOwed owed maxSteps maxBatch))
  have hdropped := toNat_excess owed (atLeastOne maxSteps) (atLeastOne maxBatch)
  simp only [toNat_atLeastOne] at htotal hsum hdropped
  refine ⟨_, _, lengths, ticks, ofOwedExact_eq owed maxSteps maxBatch, rfl, htotal, hlengths, heven,
    hexact, hticks, heven.sum_eq.trans hsum.symm, ?_, hdropped, ?_⟩
  · have hzero : (0 : UInt64).toNat = 0 := rfl
    rw [UInt64.lt_iff_toNat_lt, hzero, hdropped]
    omega
  · intro τ _ delta step residual howed
    rw [take_eq_ofOwed, howed]

/-- A sixth of a second at sixty ticks per second, with room for four batches of three ticks. -/
theorem divides_evenly_ten :
    ∃ lengths, (take (1 / 6 : Rat) (1 / 60) 4 3 0).1.lengths = .ok lengths ∧
      Even 10 4 3 lengths := by
  obtain ⟨plan, _, lengths, _, -, -, -, hlengths, heven, -, -, -, -, -, htake⟩ :=
    divides_evenly 10 4 3
  rw [htake Rat (1 / 6) (1 / 60) 0 (by decide +kernel)]
  exact ⟨lengths, hlengths, heven⟩

end StepPlan

end Metronome
