import Metronome.Prediction.Burst
import Metronome.Proofs.Confirmed
import Metronome.Proofs.Ghosts
import Metronome.Proofs.StepFlags

/-!
# The legs of a burst

A step of a burst that returns does two things: it moves the driver, and it opens the scene with an
invocation (`step_eq_ok_iff`). Toward a replay point that is ahead of the start the move is a `Hop`:
the batch ends on the point, on the last full tick if that comes first, or where the budget is used
up, and never past any of them.
-/

namespace Metronome

open Tick

/-- The invocation that a scene was opened with last. -/
def Scene.invocation? {τ φ H : Type} (c : Scene τ φ H) : Option (Invocation τ φ) :=
  match c.world.past with
  | .invoked i :: _ => some i
  | _ => none

/-- A scene opened with an invocation. -/
def Scene.opened {τ φ H : Type} [Host H τ] (c : Scene τ φ H) (i : Invocation τ φ)
    (ghosts : Ghosts) : Scene τ φ H where
  world :=
    { c.world with
      time := { c.world.time with
        serverTick := i.tick
        serverFraction := i.fraction
        flags := i.flags
        batch := i.batch
        predictedIndex := c.world.time.predictedIndex + 1
        elapsed := i.window.elapsed } }.invoke i
  ghosts

@[simp] theorem Scene.invocation?_opened {τ φ H : Type} [Host H τ] (c : Scene τ φ H)
    (i : Invocation τ φ) (ghosts : Ghosts) : (c.opened i ghosts).invocation? = some i :=
  rfl

namespace Prediction

variable {τ φ H : Type}

/-! ## Batches toward a point ahead -/

/-- The ticks to where the next batch has to stop: the replay point, or the last full tick
if that comes first. -/
def gap (start point lastFull : Tick) : Int :=
  if 0 < lastFull.distance start ∧ lastFull.distance start < point.distance start then
    lastFull.distance start
  else point.distance start

theorem gap_pos {start point : Tick} (lastFull : Tick) (h : 0 < point.distance start) :
    0 < gap start point lastFull := by
  unfold gap
  split
  · omega
  · exact h

theorem gap_le (start point lastFull : Tick) : gap start point lastFull ≤ point.distance start := by
  unfold gap
  split <;> omega

/-- A batch would run past the last full tick if that is newer than its start, and
the point newer still. -/
theorem crosses_eq {start point lastFull : Tick} (hs : start.OnCircle) (hp : point.OnCircle)
    (hl : lastFull.OnCircle) :
    crosses start point lastFull =
      .ok (decide (0 < lastFull.distance start ∧ 0 < point.distance lastFull)) := by
  unfold crosses
  rw [isNewerThan_eq_ok hl.isValid hs.isValid, ok_bind]
  by_cases hfirst : 0 < lastFull.distance start
  · rw [if_pos (decide_eq_true hfirst), isNewerThan_eq_ok hp.isValid hl.isValid]
    simp [hfirst]
  · simp [hfirst]

/-- Toward a point ahead, it does exactly if the last full tick lies strictly between its
start and the point. -/
theorem crosses_eq_ok {start point lastFull : Tick} (hs : start.OnCircle) (hp : point.OnCircle)
    (hl : lastFull.OnCircle) (hahead : 0 < point.distance start) :
    crosses start point lastFull =
      .ok (decide (0 < lastFull.distance start ∧
        lastFull.distance start < point.distance start)) := by
  obtain ⟨k, hk⟩ := distance_triangle hp hl hs
  have := distance_lt point lastFull
  have := distance_lt point start
  have := distance_lt lastFull start
  have := le_distance point lastFull
  rw [crosses_eq hs hp hl]
  exact congrArg Except.ok (decide_eq_decide.mpr (by omega))

/-- A batch without its queries: where it would stop, cut to its budget. -/
theorem nextBatch_eq {start point lastFull : Tick} (hs : start.OnCircle) (hp : point.OnCircle)
    (hl : lastFull.OnCircle) {crossing : Bool}
    (hcross : (if start == lastFull then pure false else crosses start point lastFull) =
      .ok crossing)
    (budget firstBudget : UInt32) :
    nextBatch start point lastFull budget firstBudget =
      (let budget := if start == lastFull then firstBudget else budget
      let stop := if crossing then lastFull else point
      let length := (max (stop.distance start) 1).toNat.toUInt32
      .ok (if length > budget then ⟨start.shift budget, budget, true, budget⟩
        else ⟨stop, length, crossing, budget⟩)) := by
  by_cases heq : start = lastFull
  · subst heq
    obtain rfl : crossing = false := by simpa using hcross.symm
    simp only [nextBatch, beq_self_eq_true, ↓reduceIte, Bool.false_eq_true, pure_eq_ok, ok_bind,
      since_eq_ok hp.isValid hs.isValid, advance_eq_ok hs.isValid]
    split <;> rfl
  · have hne : (start == lastFull) = false := by simpa using heq
    rw [hne, if_neg Bool.false_ne_true] at hcross
    cases crossing
    · simp only [nextBatch, hne, Bool.false_eq_true, ↓reduceIte, hcross, pure_eq_ok, ok_bind,
        since_eq_ok hp.isValid hs.isValid, advance_eq_ok hs.isValid]
      split <;> rfl
    · simp only [nextBatch, hne, Bool.false_eq_true, ↓reduceIte, hcross, pure_eq_ok, ok_bind,
        since_eq_ok hl.isValid hs.isValid, advance_eq_ok hs.isValid]
      split <;> rfl

theorem word_of_distance {x : Int} (hlo : 0 < x) (hhi : x < 1073741824) :
    ((max x 1).toNat.toUInt32).toNat = x.toNat := by
  rw [Nat.toUInt32_eq, UInt32.toNat_ofNat']
  omega

/-- A batch ends on its point if it is not split. Otherwise it ends on the last full tick, or where
its budget is used up. -/
theorem nextBatch_stop {start point lastFull : Tick} {budget firstBudget : UInt32} {b : Batch}
    (h : nextBatch start point lastFull budget firstBudget = .ok b) :
    (b.split = false → b.stop = point) ∧
    (b.stop = point ∨ b.stop = lastFull ∨ ∃ n, b.stop = start.shift n) := by
  have hcut : ∀ {purse length : UInt32} {crossing : Bool},
      (if length > purse then (do return (⟨← start.advance purse, purse, true, purse⟩ : Batch))
        else .ok ⟨if crossing then lastFull else point, length, crossing, purse⟩) = .ok b →
      (b.split = false → b.stop = point) ∧
      (b.stop = point ∨ b.stop = lastFull ∨ ∃ n, b.stop = start.shift n) := by
    intro purse length crossing h
    split at h
    · obtain ⟨stop, hstop, h⟩ := bind_eq_ok_iff.mp h
      cases h
      unfold advance at hstop
      split at hstop <;> cases hstop
      exact ⟨fun hsplit => absurd hsplit (by simp), Or.inr (Or.inr ⟨purse, rfl⟩)⟩
    · cases h
      cases crossing
      · exact ⟨fun _ => rfl, Or.inl rfl⟩
      · exact ⟨fun hsplit => absurd hsplit (by simp), Or.inr (Or.inl rfl)⟩
  simp only [nextBatch] at h
  by_cases hat : (start == lastFull) = true
  · rw [if_pos hat] at h
    obtain ⟨crossing, -, h⟩ := bind_eq_ok_iff.mp h
    obtain ⟨age, -, h⟩ := bind_eq_ok_iff.mp h
    exact hcut h
  · rw [if_neg hat] at h
    obtain ⟨crossing, -, h⟩ := bind_eq_ok_iff.mp h
    obtain ⟨age, -, h⟩ := bind_eq_ok_iff.mp h
    exact hcut h

/-- The budget that the next batch is cut to. -/
def purse (s : Prediction τ φ) (config : Config τ φ) : UInt32 :=
  if s.start = s.lastFull then config.firstBudget else s.budget

/-- The length of the next batch toward a point. -/
def nextLength (s : Prediction τ φ) (config : Config τ φ) (point : Tick) : UInt32 :=
  min (gap s.start point s.lastFull).toNat.toUInt32 (s.purse config)

section Length

variable {s : Prediction τ φ} (config : Config τ φ) {point : Tick}

theorem toNat_nextLength (hahead : 0 < point.distance s.start) :
    (s.nextLength config point).toNat =
      min (gap s.start point s.lastFull).toNat (s.purse config).toNat := by
  have hpos := gap_pos s.lastFull hahead
  have hle := gap_le s.start point s.lastFull
  have hlt := distance_lt point s.start
  have hword : ((gap s.start point s.lastFull).toNat.toUInt32).toNat =
      (gap s.start point s.lastFull).toNat := by
    rw [Nat.toUInt32_eq, UInt32.toNat_ofNat']
    omega
  have hmin : s.nextLength config point =
      if (gap s.start point s.lastFull).toNat.toUInt32 ≤ s.purse config then
        (gap s.start point s.lastFull).toNat.toUInt32
      else s.purse config := rfl
  rw [hmin]
  split
  · rename_i h
    rw [UInt32.le_iff_toNat_le] at h
    omega
  · rename_i h
    rw [UInt32.le_iff_toNat_le] at h
    omega

/-- The next batch toward a point ahead. -/
theorem nextBatch_eq_ok (hs : s.start.OnCircle) (hp : point.OnCircle) (hl : s.lastFull.OnCircle)
    (hahead : 0 < point.distance s.start) :
    nextBatch s.start point s.lastFull s.budget config.firstBudget =
      .ok ⟨s.start.shift (s.nextLength config point), s.nextLength config point,
        decide ((s.nextLength config point).toNat < point.distance s.start), s.purse config⟩ := by
  have hlength := toNat_nextLength config hahead
  have hpos := gap_pos s.lastFull hahead
  have hle := gap_le s.start point s.lastFull
  have hlt := distance_lt point s.start
  have hcross : (if s.start == s.lastFull then pure false else crosses s.start point s.lastFull) =
      .ok (decide (0 < s.lastFull.distance s.start ∧
        s.lastFull.distance s.start < point.distance s.start)) := by
    by_cases heq : s.start = s.lastFull
    · simp [← heq]
    · rw [if_neg (by simpa using heq)]
      exact crosses_eq_ok hs hp hl hahead
  -- the stop that the budget does not cut is a gap ahead
  obtain ⟨stop, hstop, hoc, hdist⟩ : ∃ stop, stop = (if decide (0 < s.lastFull.distance s.start ∧
      s.lastFull.distance s.start < point.distance s.start) = true then s.lastFull else point) ∧
      stop.OnCircle ∧ stop.distance s.start = gap s.start point s.lastFull := by
    refine ⟨_, rfl, ?_, ?_⟩
    · split
      · exact hl
      · exact hp
    · simp only [gap, decide_eq_true_eq]
      split <;> rfl
  have hword : ((max (stop.distance s.start) 1).toNat.toUInt32).toNat =
      (gap s.start point s.lastFull).toNat := by
    rw [hdist, word_of_distance hpos (by omega)]
  have hpurse : (if s.start == s.lastFull then config.firstBudget else s.budget) =
      s.purse config := by
    simp only [purse, beq_iff_eq]
  simp only [nextBatch_eq hs hp hl hcross, hpurse, ← hstop]
  split
  · rename_i hover
    have hover := UInt32.lt_iff_toNat_lt.mp hover
    have hbudget : s.nextLength config point = s.purse config := by
      apply UInt32.toNat_inj.mp
      omega
    have hsplit : ((s.purse config).toNat : Int) < point.distance s.start := by omega
    simp [hbudget, hsplit]
  · rename_i hfit
    have hfit := mt UInt32.lt_iff_toNat_lt.mpr hfit
    have hfull : s.nextLength config point = (max (stop.distance s.start) 1).toNat.toUInt32 := by
      apply UInt32.toNat_inj.mp
      omega
    have hreach : stop = s.start.shift (s.nextLength config point) :=
      eq_shift_of_distance hoc hs (by rw [hfull, hword, hdist]; omega)
    have hsplit : ((s.nextLength config point).toNat : Int) < point.distance s.start ↔
        0 < s.lastFull.distance s.start ∧ s.lastFull.distance s.start < point.distance s.start := by
      rw [hfull, hword]
      unfold gap
      split <;> omega
    rw [← hfull, ← hreach, decide_eq_decide.mpr hsplit]

end Length

/-! ## Steps -/

/-- The invocation of a leg. -/
def Leg.invocation (leg : Leg τ φ) (isFirst : Bool) : Invocation τ φ where
  driver := .prediction
  tick := leg.tick
  fraction := leg.fraction
  batch := leg.batch
  flags := leg.flags.set StepFlags.first isFirst
  window := leg.window

/-- The driver after an invocation was counted. -/
def counted (s : Prediction τ φ) (i : Invocation τ φ) : Prediction τ φ :=
  { s with
    invocations := s.invocations + 1
    finals := if i.flags.contains StepFlags.final then s.finals + 1 else s.finals }

/-- The counters of a step have room for an invocation. -/
structure Fits (s : Prediction τ φ) (c : Scene τ φ H) (i : Invocation τ φ) : Prop where
  invocations : s.invocations.toNat + 1 < UInt32.size
  predictedIndex : c.world.time.predictedIndex.toNat + 1 < UInt32.size
  finals : i.flags.contains StepFlags.final = true → s.finals.toNat + 1 < UInt32.size

theorem contains_first_invocation (leg : Leg τ φ) (isFirst : Bool) :
    (leg.invocation isFirst).flags.contains StepFlags.first = isFirst :=
  StepFlags.contains_set_self (by decide) isFirst

/-- The flags of an invocation are those of its leg, up to the one for the first invocation. -/
theorem contains_invocation (leg : Leg τ φ) (isFirst : Bool) {bits : UInt8}
    (h : StepFlags.first &&& bits = 0) :
    (leg.invocation isFirst).flags.contains bits = leg.flags.contains bits :=
  StepFlags.contains_set h isFirst

/-- The flags of a batch say what they were set to. -/
theorem contains_batchFlags (flags : StepFlags) (new : Bool) (stop confirmed target : Tick) :
    (batchFlags flags new stop confirmed target).contains StepFlags.firstTime = new ∧
      (batchFlags flags new stop confirmed target).contains StepFlags.final = (stop == confirmed) ∧
      (batchFlags flags new stop confirmed target).contains StepFlags.finalFull =
        (stop == target) := by
  unfold batchFlags
  refine ⟨?_, ?_, StepFlags.contains_set_self (by decide) _⟩
  · rw [StepFlags.contains_set (by decide), StepFlags.contains_set (by decide),
      StepFlags.contains_set_self (by decide)]
  · rw [StepFlags.contains_set (by decide), StepFlags.contains_set_self (by decide)]

/-- The flags for the part of a tick mark it as the last invocation, but not as full or new. -/
theorem contains_partialFlags (flags : StepFlags) :
    (partialFlags flags).contains StepFlags.final = true ∧
      (partialFlags flags).contains StepFlags.finalFull = false ∧
      (partialFlags flags).contains StepFlags.firstTime = false := by
  unfold partialFlags
  refine ⟨?_, StepFlags.contains_remove_of_mem (by decide) (by decide),
    StepFlags.contains_remove_of_mem (by decide) (by decide)⟩
  rw [StepFlags.contains_remove (by decide), StepFlags.contains_insert_self]

variable [Seconds τ] [Fraction φ] [Clock τ φ]

/-- The next leg moves the driver along, and leaves the rest of it as it was. -/
theorem frame_of_nextLeg {s s₁ : Prediction τ φ} {c : Scene τ φ H} {ghosts : Ghosts}
    {leg : Leg τ φ} (h : nextLeg s c = .ok (s₁, ghosts, leg)) :
    s₁ = { s with
      start := s₁.start, ahead := s₁.ahead, lastFull := s₁.lastFull, budget := s₁.budget
      partialDone := s₁.partialDone } := by
  unfold nextLeg at h
  split at h
  · simp only [batchLeg, bind_eq_ok_iff, pure_eq_ok, Except.ok.injEq] at h
    obtain ⟨b, -, firstTime, -, _, -, _, -, heq⟩ := h
    cases heq
    rfl
  · cases h
    rfl

variable [Host H τ]

/-- A step that returns has a leg. -/
theorem exists_nextLeg {s : Prediction τ φ} {c : Scene τ φ H} {y : Prediction τ φ × Scene τ φ H}
    (h : step (s, c) = .ok y) : ∃ s₁ ghosts leg, nextLeg s c = .ok (s₁, ghosts, leg) := by
  simp only [step, bind_eq_ok_iff] at h
  obtain ⟨-, -, ⟨s₁, ghosts, leg⟩, hleg, -⟩ := h
  exact ⟨s₁, ghosts, leg, hleg⟩

/-- What a step does, once it is known which leg comes next. -/
theorem step_eq_ok_iff {s s₁ s' : Prediction τ φ} {c c' : Scene τ φ H} {ghosts : Ghosts}
    {leg : Leg τ φ} (hleg : nextLeg s c = .ok (s₁, ghosts, leg)) :
    step (s, c) = .ok (s', c') ↔
      Fits s c (leg.invocation (s.invocations == 0)) ∧
        s' = s₁.counted (leg.invocation (s.invocations == 0)) ∧
        c' = c.opened (leg.invocation (s.invocations == 0)) ghosts := by
  have h1 : (1 : UInt32).toNat = 1 := rfl
  have hframe := frame_of_nextLeg hleg
  have hinv : s₁.invocations = s.invocations := (congrArg invocations hframe :)
  have hfin : s₁.finals = s.finals := (congrArg finals hframe :)
  constructor
  · intro h
    simp only [step, bind_eq_ok_iff, hleg, addChecked_eq_ok_iff] at h
    obtain ⟨_, ⟨hn, rfl⟩, _, heq, _, ⟨hp, rfl⟩, h⟩ := h
    cases heq
    split at h
    · rename_i hflag
      simp only [bind_eq_ok_iff, addChecked_eq_ok_iff] at h
      obtain ⟨_, ⟨hf, rfl⟩, h⟩ := h
      cases h
      refine ⟨⟨h1 ▸ hn, h1 ▸ hp, fun _ => ?_⟩, ?_, rfl⟩
      · rw [← hfin]
        exact h1 ▸ hf
      · simp [counted, Leg.invocation, hflag, hinv]
    · rename_i hflag
      cases h
      refine ⟨⟨h1 ▸ hn, h1 ▸ hp, fun h => absurd h hflag⟩, ?_, rfl⟩
      simp [counted, Leg.invocation, hflag, hinv]
  · rintro ⟨⟨hn, hp, hf⟩, rfl, rfl⟩
    simp only [step, hleg, ok_bind, addChecked_eq_ok (a := s.invocations) (b := 1) hn,
      addChecked_eq_ok (a := c.world.time.predictedIndex) (b := 1) hp]
    split
    · rename_i hflag
      rw [addChecked_eq_ok (by rw [hfin]; exact hf hflag)]
      simp [counted, Leg.invocation, hflag, hinv, Scene.opened]
    · rename_i hflag
      simp [counted, Leg.invocation, hflag, hinv, Scene.opened]

/-- A step with a point ahead moves the driver and the scene to where the next batch ends. -/
theorem step_of_ahead {s s' : Prediction τ φ} {c c' : Scene τ φ H} {point : Tick} {rest : List Tick}
    (hahead : s.ahead = point :: rest) (h : step (s, c) = .ok (s', c')) :
    ∃ b, nextBatch s.start point s.lastFull s.budget c.world.config.firstBudget = .ok b ∧
      s'.ahead = (if b.split then point :: rest else rest) ∧ s'.start = b.stop ∧
      (s'.lastFull = s.lastFull ∨ s'.lastFull = b.stop) ∧ s'.history = s.history ∧
      s'.confirmed = s.confirmed ∧
      s'.partialDone = s.partialDone ∧ c'.world.time.serverTick = b.stop ∧
      ∃ i, c'.invocation? = some i ∧ i.tick = b.stop ∧ i.fraction = 1 := by
  have hnext : nextLeg s c = batchLeg s c point rest := by
    unfold nextLeg
    rw [hahead]
  obtain ⟨s₁, ghosts, leg, hleg⟩ := exists_nextLeg h
  have hbatch := hnext.symm.trans hleg
  simp only [batchLeg, bind_eq_ok_iff, pure_eq_ok, Except.ok.injEq] at hbatch
  obtain ⟨b, hb, firstTime, _, _, _, _, _, heq⟩ := hbatch
  cases heq
  obtain ⟨-, rfl, rfl⟩ := (step_eq_ok_iff hleg).mp h
  refine ⟨b, hb, rfl, rfl, ?_, rfl, rfl, rfl, rfl, _, rfl, rfl, rfl⟩
  cases firstTime
  · exact Or.inl rfl
  · exact Or.inr rfl

/-! ## Hops -/

/-- The driver after a batch toward a point. -/
def hopped (s : Prediction τ φ) (config : Config τ φ) (point : Tick) (rest : List Tick) :
    Prediction τ φ :=
  let stop := s.start.shift (s.nextLength config point)
  { s with
    start := stop
    ahead :=
      if ((s.nextLength config point).toNat : Int) < point.distance s.start then point :: rest
      else rest
    lastFull := if 0 < stop.distance s.lastFull then stop else s.lastFull
    budget := s.purse config }

/-- The batch toward a point, under the flags that were set before. -/
def hopLeg (s : Prediction τ φ) (config : Config τ φ) (flags : StepFlags) (point : Tick) :
    Leg τ φ :=
  let length := s.nextLength config point
  let stop := s.start.shift length
  { tick := stop
    fraction := 1
    batch := length
    flags := batchFlags flags (decide (0 < stop.distance s.lastFull)) stop s.confirmed.tick s.target
    window := ⟨s.baseline - config.step * Seconds.ofInt (s.target.distance stop),
      config.step * Seconds.ofInt length.toNat⟩ }

omit [Host H τ] in
theorem nextLeg_eq_hop {s : Prediction τ φ} {c : Scene τ φ H} {point : Tick} {rest : List Tick}
    (hahead : s.ahead = point :: rest) (hs : s.start.OnCircle) (hg : s.target.OnCircle)
    (hp : point.OnCircle) (hl : s.lastFull.OnCircle) (hpos : 0 < point.distance s.start) :
    nextLeg s c = .ok (s.hopped c.world.config point rest, c.ghosts.joined s.start,
      s.hopLeg c.world.config c.world.time.flags point) := by
  have hstop := hs.shift (s.nextLength c.world.config point)
  simp only [nextLeg, hahead, batchLeg, nextBatch_eq_ok _ hs hp hl hpos, ok_bind, isFirstTime,
    hl.isValid, ↓reduceIte, isNewerThan_eq_ok hstop.isValid hl.isValid,
    Ghosts.enableFrom_eq_ok _ hs.isValid, since_eq_ok hg.isValid hstop.isValid, pure_eq_ok]
  simp [hopped, hopLeg]

end Prediction

end Metronome
