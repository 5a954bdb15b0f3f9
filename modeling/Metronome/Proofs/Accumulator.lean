import Mathlib.Data.Rat.Floor
import Mathlib.Tactic.Linarith
import Mathlib.Tactic.Ring
import Metronome.Clock.Exact
import Metronome.Proofs.StepPlan

/-!
# Time that is accounted for

An accumulator meets time in slices: each frame adds its delta to what was left over, takes out the
whole ticks that are due, and leaves the rest to the next one. A frame runs the ticks that it owes
up to the capacity of its settings and drops those beyond it (`Slice.ticks_plan`).

Over exact time nothing else is lost, however the time is sliced: run and dropped ticks together are
the whole ticks of the time that has passed, and the rest of it is what is left over
(`accounts_for_time`). Runs that never drop a tick therefore run the same number of ticks in the
same time.
-/

namespace Metronome

variable {φ : Type}

/-- Sixty ticks per second, told exactly, and four batches of four ticks per frame. -/
def Config.sixty : Config Rat Rat where
  step := 1 / 60
  maxSteps := 4
  maxBatch := 4
  maxRepeat := 1
  maxFirst := 1
  pacing := .busyWait
  clampPercent := 5
  requireGhost := false
  historyTicks := 64

/-- The most ticks that a frame can run. -/
def Config.capacity (config : Config Rat φ) : Nat :=
  config.steps.toNat * config.batchLimit.toNat

/-! ## Whole steps and the rest -/

/-- What whole steps leave of a time is less than a step. -/
theorem sub_floor_bounds {step : Rat} (hstep : 0 < step) (time : Rat) :
    0 ≤ time - step * ⌊time / step⌋ ∧ time - step * ⌊time / step⌋ < step := by
  have hle := (le_div_iff₀ hstep).mp (Int.floor_le (time / step))
  have hlt := (div_lt_iff₀ hstep).mp (Int.lt_floor_add_one (time / step))
  constructor <;> linarith

/-- A time from which whole steps were taken has as many fewer of them. -/
theorem floor_add_mul {step : Rat} (hstep : 0 < step) (time : Rat) (n : Int) :
    ⌊(time + step * n) / step⌋ = ⌊time / step⌋ + n := by
  rw [add_div, mul_div_cancel_left₀ _ hstep.ne', Int.floor_add_intCast]

theorem toNat_exactUnits {total unit : Rat} (h : ⌊total / unit⌋.toNat < UInt64.size) :
    (exactUnits total unit).toNat = ⌊total / unit⌋.toNat := by
  have heq : exactUnits total unit = ⌊total / unit⌋.toNat.toUInt64 := if_pos h
  rw [heq, Nat.toUInt64_eq, UInt64.toNat_ofNat']
  exact Nat.mod_eq_of_lt h

/-! ## A frame -/

/-- A frame as an accumulator meets it: what was left over, and the seconds since then. -/
structure Slice where
  before : Accumulator Rat
  delta : Rat

namespace Slice

/-- The time that is due in the frame. A delta that is not positive counts as none. -/
def due (f : Slice) : Rat :=
  f.before.residual + max f.delta 0

/-- The plan that the frame takes. -/
def plan (f : Slice) (config : Config Rat φ) : StepPlan :=
  (f.before.advance f.delta config).1

/-- What the frame leaves over. -/
def after (f : Slice) (config : Config Rat φ) : Accumulator Rat :=
  (f.before.advance f.delta config).2

/-- The whole ticks that the frame owes. -/
def owed (f : Slice) (config : Config Rat φ) : Nat :=
  ⌊f.due / config.step⌋.toNat

/-- The ticks that the frame owes beyond its capacity. -/
def dropped (f : Slice) (config : Config Rat φ) : Nat :=
  f.owed config - config.capacity

/-- What is left over before the frame is less than a tick, and what it owes can be counted. -/
structure Regular (f : Slice) (config : Config Rat φ) : Prop where
  nonneg : 0 ≤ f.before.residual
  countable : f.owed config < UInt64.size

variable {f : Slice} {config : Config Rat φ}

theorem advance_eq (hstep : 0 < config.step) (hres : 0 ≤ f.before.residual) :
    f.before.advance f.delta config =
      (.ofOwed (exactUnits f.due config.step) config.steps config.batchLimit,
        ⟨f.due - config.step * ⌊f.due / config.step⌋⟩) := by
  have hdue : (if Seconds.isFinite f.delta ∧ 0 < f.delta then f.before.residual + f.delta
      else f.before.residual) = f.due := by
    unfold due
    by_cases hpos : 0 < f.delta
    · rw [if_pos ⟨rfl, hpos⟩, max_eq_left hpos.le]
    · rw [if_neg fun h => hpos h.2, max_eq_right (not_lt.mp hpos), add_zero]
  have hnonneg : ¬f.due < 0 := not_lt.mpr (add_nonneg hres (le_max_right f.delta 0))
  unfold Accumulator.advance StepPlan.take
  dsimp only
  rw [if_pos ⟨rfl, hstep⟩, hdue]
  congr 2
  exact if_neg hnonneg

/-- A frame runs the ticks that it owes, up to its capacity. -/
theorem Regular.ticks_plan (h : f.Regular config) (hstep : 0 < config.step) :
    (f.plan config).ticks = .ok (min (f.owed config) config.capacity) := by
  have hticks :=
    StepPlan.ticks_ofOwed (exactUnits f.due config.step) config.maxSteps config.maxBatch
  rw [toNat_exactUnits h.countable] at hticks
  unfold plan
  rw [advance_eq hstep h.nonneg]
  exact hticks

theorem residual_after (hstep : 0 < config.step) (hres : 0 ≤ f.before.residual) :
    (f.after config).residual = f.due - config.step * ⌊f.due / config.step⌋ := by
  unfold after
  rw [advance_eq hstep hres]

theorem cast_owed (hstep : 0 < config.step) (hres : 0 ≤ f.before.residual) :
    (f.owed config : Int) = ⌊f.due / config.step⌋ := by
  have hdue : 0 ≤ f.due := add_nonneg hres (le_max_right f.delta 0)
  exact Int.toNat_of_nonneg (Int.floor_nonneg.mpr (div_nonneg hdue hstep.le))

end Slice

/-! ## Frames in a row -/

namespace Accumulator

/-- The frames of so many seconds each, one after another. -/
def slices (config : Config Rat φ) (a : Accumulator Rat) : List Rat → List Slice
  | [] => []
  | delta :: deltas => ⟨a, delta⟩ :: slices config (Slice.after ⟨a, delta⟩ config) deltas

/-- What is left over after frames of so many seconds each. -/
def afterAll (config : Config Rat φ) (a : Accumulator Rat) : List Rat → Accumulator Rat
  | [] => a
  | delta :: deltas => afterAll config (Slice.after ⟨a, delta⟩ config) deltas

/-- The time that frames cover. A delta that is not positive counts as none. -/
def elapsed (deltas : List Rat) : Rat :=
  (deltas.map fun delta => max delta 0).sum

/-- Less than a tick is left over. -/
def Settled (config : Config Rat φ) (a : Accumulator Rat) : Prop :=
  0 ≤ a.residual ∧ a.residual < config.step

variable {config : Config Rat φ}

theorem settled_empty (hstep : 0 < config.step) : Settled config empty :=
  ⟨le_rfl, hstep⟩

theorem settled_after {f : Slice} (hstep : 0 < config.step) (hres : 0 ≤ f.before.residual) :
    Settled config (f.after config) := by
  have hbounds := sub_floor_bounds hstep f.due
  rwa [← Slice.residual_after hstep hres] at hbounds

theorem settled_afterAll (hstep : 0 < config.step) (deltas : List Rat) :
    ∀ {a : Accumulator Rat}, Settled config a → Settled config (a.afterAll config deltas) := by
  induction deltas with
  | nil => exact id
  | cons delta deltas ih => exact fun ha => ih (settled_after hstep ha.1)

/-- Every frame begins with less than a tick. -/
theorem settled_before (hstep : 0 < config.step) (deltas : List Rat) :
    ∀ {a : Accumulator Rat}, Settled config a →
      ∀ f ∈ a.slices config deltas, Settled config f.before := by
  induction deltas with
  | nil => simp [slices]
  | cons delta deltas ih =>
    exact fun ha => List.forall_mem_cons.mpr ⟨ha, ih (settled_after hstep ha.1)⟩

/-- Frames together owe the whole ticks of the time that they cover and of what was left over
before, and leave the rest. -/
theorem sum_owed (hstep : 0 < config.step) (deltas : List Rat) :
    ∀ {a : Accumulator Rat}, Settled config a →
      ((((a.slices config deltas).map fun f => f.owed config).sum : Nat) : Int) =
          ⌊(a.residual + elapsed deltas) / config.step⌋ ∧
        (a.afterAll config deltas).residual = a.residual + elapsed deltas -
          config.step * ⌊(a.residual + elapsed deltas) / config.step⌋ := by
  induction deltas with
  | nil =>
    intro a ⟨hlo, hhi⟩
    have hnone : ⌊a.residual / config.step⌋ = 0 :=
      Int.floor_eq_zero_iff.mpr ⟨div_nonneg hlo hstep.le, (div_lt_one hstep).mpr hhi⟩
    simp [slices, afterAll, elapsed, hnone]
  | cons delta deltas ih =>
    intro a ha
    let f : Slice := ⟨a, delta⟩
    obtain ⟨hsum, hafter⟩ := ih (settled_after (f := f) hstep ha.1)
    have hres : (f.after config).residual = f.due - config.step * ⌊f.due / config.step⌋ :=
      Slice.residual_after hstep ha.1
    -- what this frame owes is what the later ones do not find left over
    have htotal : a.residual + elapsed (delta :: deltas) =
        (f.after config).residual + elapsed deltas + config.step * ⌊f.due / config.step⌋ := by
      rw [hres, Slice.due, elapsed, List.map_cons, List.sum_cons, elapsed]
      ring
    rw [htotal, floor_add_mul hstep]
    constructor
    · rw [slices, List.map_cons, List.sum_cons, Nat.cast_add, hsum, Slice.cast_owed hstep ha.1,
        add_comm]
    · rw [afterAll, hafter]
      push_cast
      ring

theorem regular_of_mem (hstep : 0 < config.step) {deltas : List Rat}
    (howed : ∀ f ∈ empty.slices config deltas, f.owed config < UInt64.size) :
    ∀ f ∈ empty.slices config deltas, f.Regular config :=
  fun f hf => ⟨(settled_before hstep deltas (settled_empty hstep) f hf).1, howed f hf⟩

theorem sum_min_add_sum_sub (owed : List Nat) (capacity : Nat) :
    (owed.map fun n => min n capacity).sum + (owed.map fun n => n - capacity).sum = owed.sum := by
  induction owed with
  | nil => rfl
  | cons n owed ih =>
    simp only [List.map_cons, List.sum_cons]
    omega

/-- No frame owes more than its capacity. -/
def Unhurried (config : Config Rat φ) (deltas : List Rat) : Prop :=
  ∀ f ∈ empty.slices config deltas, f.owed config ≤ config.capacity

theorem capacity_lt (config : Config Rat φ) : config.capacity < UInt64.size := by
  have hsteps := atLeastOne_le config.maxSteps
  have hbatch := atLeastOne_le config.maxBatch
  have hle : config.capacity ≤ 2147483647 * 2147483647 := Nat.mul_le_mul hsteps hbatch
  have hsize : UInt64.size = 18446744073709551616 := rfl
  omega

/-- Frames that never hurry drop nothing. -/
theorem Unhurried.sum_dropped {deltas : List Rat} (h : Unhurried config deltas) :
    ((empty.slices config deltas).map fun f => f.dropped config).sum = 0 :=
  List.sum_eq_zero fun n hn => by
    obtain ⟨f, hf, rfl⟩ := List.mem_map.mp hn
    exact Nat.sub_eq_zero_of_le (h f hf)

/-- From a fresh accumulator every frame tells its ticks, and run and dropped ticks are the whole
ticks of the time that has passed. -/
theorem exists_executed (hstep : 0 < config.step) {deltas : List Rat}
    (howed : ∀ f ∈ empty.slices config deltas, f.owed config < UInt64.size) :
    ∃ executed,
      (empty.slices config deltas).mapM (fun f => (f.plan config).ticks) = .ok executed ∧
        ((executed.sum + ((empty.slices config deltas).map fun f => f.dropped config).sum : Nat)
          : Int) = ⌊elapsed deltas / config.step⌋ := by
  have hticks := mapM_eq_ok fun f hf => (regular_of_mem hstep howed f hf).ticks_plan hstep
  have hsum := (sum_owed hstep deltas (settled_empty hstep)).1
  have hsplit := sum_min_add_sum_sub ((empty.slices config deltas).map fun f => f.owed config)
    config.capacity
  rw [List.map_map, List.map_map] at hsplit
  have hzero : (empty : Accumulator Rat).residual = 0 := rfl
  rw [← hsplit, hzero, zero_add] at hsum
  exact ⟨_, hticks, hsum⟩

/-- Frames that never hurry run the whole ticks of the time that has passed. -/
theorem Unhurried.exists_executed (hstep : 0 < config.step) {deltas : List Rat}
    (h : Unhurried config deltas) :
    ∃ executed,
      (empty.slices config deltas).mapM (fun f => (f.plan config).ticks) = .ok executed ∧
        (executed.sum : Int) = ⌊elapsed deltas / config.step⌋ := by
  have howed := fun f hf => (h f hf).trans_lt (capacity_lt config)
  obtain ⟨executed, hticks, hsum⟩ := Accumulator.exists_executed hstep howed
  rw [h.sum_dropped, add_zero] at hsum
  exact ⟨executed, hticks, hsum⟩

/-- Over exact time the ticks that the frames run and those that they drop are the whole ticks of
the time that has passed, and the rest of it, less than a tick, is left over. Runs of the same time
whose frames never hurry therefore run the same number of ticks, wherever the frames end. -/
theorem accounts_for_time {config : Config Rat φ} (hstep : 0 < config.step) {deltas : List Rat}
    (howed : ∀ f ∈ empty.slices config deltas, f.owed config < UInt64.size) :
    ∃ executed,
      (empty.slices config deltas).mapM (fun f => (f.plan config).ticks) = .ok executed ∧
        ((executed.sum + ((empty.slices config deltas).map fun f => f.dropped config).sum : Nat)
          : Int) = ⌊elapsed deltas / config.step⌋ ∧
        (empty.afterAll config deltas).residual =
          elapsed deltas - config.step * ⌊elapsed deltas / config.step⌋ ∧
        0 ≤ (empty.afterAll config deltas).residual ∧
        (empty.afterAll config deltas).residual < config.step ∧
        (Unhurried config deltas → ∀ (config' : Config Rat φ) (deltas' : List Rat),
          config'.step = config.step → elapsed deltas' = elapsed deltas →
          Unhurried config' deltas' → ∃ executed',
            (empty.slices config' deltas').mapM (fun f => (f.plan config').ticks) = .ok executed' ∧
              executed'.sum = executed.sum) := by
  obtain ⟨executed, hticks, hsum⟩ := exists_executed hstep howed
  have hrest := (sum_owed hstep deltas (settled_empty hstep)).2
  have hzero : (empty : Accumulator Rat).residual = 0 := rfl
  rw [hzero, zero_add] at hrest
  have hsettled := settled_afterAll hstep deltas (settled_empty hstep)
  refine ⟨executed, hticks, hsum, hrest, hsettled.1, hsettled.2, ?_⟩
  intro hcalm config' deltas' hsame htime hcalm'
  obtain ⟨executed', hticks', hsum'⟩ := hcalm'.exists_executed (hsame ▸ hstep)
  rw [hcalm.sum_dropped, add_zero] at hsum
  rw [hsame, htime, ← hsum] at hsum'
  exact ⟨executed', hticks', Nat.cast_injective hsum'⟩

/-- A frame that drops ticks, one that goes back in time, and what two frames leave over. -/
theorem accounts_for_time_sixty :
    ∃ executed,
      (empty.slices Config.sixty [31 / 60, -1, 1 / 90, 1 / 90]).mapM
          (fun f => (f.plan Config.sixty).ticks) = .ok executed ∧ executed.sum = 17 := by
  obtain ⟨executed, hticks, hsum, -⟩ := @accounts_for_time Rat Config.sixty (by decide +kernel)
    [31 / 60, -1, 1 / 90, 1 / 90] (by decide +kernel)
  have hdropped : ((empty.slices Config.sixty [31 / 60, -1, 1 / 90, 1 / 90]).map
      fun f => f.dropped Config.sixty).sum = 15 := by decide +kernel
  have htime : ⌊elapsed [31 / 60, -1, 1 / 90, 1 / 90] / Config.sixty.step⌋ = 32 := by decide +kernel
  rw [hdropped, htime] at hsum
  exact ⟨executed, hticks, by omega⟩

end Accumulator

end Metronome
