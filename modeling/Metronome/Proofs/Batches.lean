import Metronome.Proofs.Snapping

/-!
# Presented batches

A presented frame covers the way from the position that was shown last to the new one, and tells its
body a whole number of ticks for it. The number is computed beside the way, from the distance of the
two ticks cut off at zero. It is never cut off in a frame that runs: a way that goes forward does
not end on an earlier tick (`covers_way`). So the batch is the distance of the ticks, with the tick
that was shown in part counted again, and its ticks are enough for the way and less than two too
many (`batches_cover_way`).
-/

namespace Metronome

open Tick

namespace Presentation

/-! ## The batch of a way -/

section Way

variable {previous now : Confirmed ℚ} {step : ℚ}

/-- The ticks from one position to another. A tick that was shown in part counts again. -/
def batchOf (previous now : Confirmed ℚ) : UInt32 :=
  (max (now.tick.distance previous.tick) 0).toNat.toUInt32 + if previous.isPartial then 1 else 0

theorem moved_eq_ok (hnow : now.tick.isValid = true) (hprevious : previous.tick.isValid = true)
    (step : ℚ) : moved previous now step =
      .ok ⟨now.tick, now.fraction, way previous now step, batchOf previous now⟩ := by
  have hlt := distance_lt now.tick previous.tick
  obtain ⟨batch, hbatch⟩ := addChecked_again
    (n := (max (now.tick.distance previous.tick) 0).toNat) (by omega) previous.isPartial
  obtain rfl : batchOf previous now = batch := (addChecked_eq_ok_iff.mp hbatch).2
  unfold moved
  rw [since_eq_ok hnow hprevious, ok_bind]
  dsimp only
  rw [hbatch]
  rfl

/-- No word is too small for the batch. -/
theorem toNat_batchOf (h : 0 ≤ now.tick.distance previous.tick) :
    ((batchOf previous now).toNat : ℤ) = now.tick.distance previous.tick + previous.lag := by
  have hlt := distance_lt now.tick previous.tick
  have hone : (1 : UInt32).toNat = 1 := rfl
  have hzero : (0 : UInt32).toNat = 0 := rfl
  unfold batchOf Confirmed.lag
  rw [UInt32.toNat_add, Nat.toUInt32_eq, UInt32.toNat_ofNat']
  split <;> omega

/-- A constructed tick lags behind itself exactly if it is under way. -/
theorem lag_cases {c : Confirmed ℚ} (h : c.Built) :
    c.lag = 0 ∧ c.fraction = 1 ∨ c.lag = 1 ∧ 0 < c.fraction ∧ c.fraction < 1 := by
  obtain ⟨hpos, hle⟩ := h.fraction_mem
  rcases hle.eq_or_lt with hone | hlt
  · exact .inl ⟨if_neg (by simp [Confirmed.isPartial, hone]), hone⟩
  · exact .inr ⟨if_pos (decide_eq_true hlt), hpos, hlt⟩

/-- A way goes forward if the ticks outweigh the fractions. -/
theorem way_pos_iff (hstep : 0 < step) : 0 < way previous now step ↔
    0 < (now.tick.distance previous.tick : ℚ) + now.fraction - previous.fraction :=
  mul_pos_iff_of_pos_right hstep

/-- A way that goes forward ends on no earlier tick. The distance of the ticks covers it if the tick
that was shown in part counts again, with less than two ticks to spare. -/
theorem covers_way (hprevious : previous.Built) (hnow : now.Built) (hstep : 0 < step)
    (hpos : 0 < way previous now step) :
    0 ≤ now.tick.distance previous.tick ∧ 1 ≤ now.tick.distance previous.tick + previous.lag ∧
      way previous now step ≤ (now.tick.distance previous.tick + previous.lag : ℤ) * step ∧
      (now.tick.distance previous.tick + previous.lag : ℤ) * step <
        way previous now step + 2 * step := by
  have hway : way previous now step =
      ((now.tick.distance previous.tick : ℚ) + now.fraction - previous.fraction) * step := rfl
  rw [way_pos_iff hstep] at hpos
  obtain ⟨hlow, hhigh⟩ := hnow.fraction_mem
  rw [hway, ← add_mul, mul_le_mul_iff_of_pos_right hstep, mul_lt_mul_iff_of_pos_right hstep]
  generalize now.tick.distance previous.tick = d at hpos ⊢
  rcases lag_cases hprevious with ⟨hlag, hone⟩ | ⟨hlag, hpart, hpart'⟩
  · have hd : 1 ≤ d := by
      have : (0 : ℚ) < d := by linarith
      exact_mod_cast this
    rw [hlag, hone]
    push_cast
    exact ⟨by omega, by omega, by linarith, by linarith⟩
  · have hd : 0 ≤ d := by
      have : (-1 : ℤ) < (d : ℚ) := by push_cast; linarith
      have := Int.cast_lt.mp this
      omega
    rw [hlag]
    push_cast
    exact ⟨hd, by omega, by linarith, by linarith⟩

end Way

/-! ## A frame -/

section Frame

variable {H : Type} {w : World ℚ ℚ H} {previous now : Confirmed ℚ} {pending : Presented ℚ ℚ}

/-- With a position to measure from, a frame is planned with the way from there and its batch. -/
theorem plan_of_measured (h : w.Shows) (hnow : w.confirmed.snap w.config.threshold = .ok now)
    (hvalid : now.isValid = true) (hprevious : previous.isValid = true) :
    plan previous w = .ok
      (⟨now.tick, now.fraction, way previous now w.config.step, batchOf previous now⟩, now) := by
  simp [plan, h.1, h.2, hnow, hprevious, moved_eq_ok hvalid hprevious]

/-- The next frame measures from a constructed tick, or from none. -/
theorem built_of_plan (hconfirmed : w.confirmed.Built)
    (hplan : plan previous w = .ok (pending, now)) : now.Built := by
  by_cases hshows : w.Shows
  · obtain ⟨at', hsnap, hcircle, -⟩ :=
      Confirmed.exists_snap (hconfirmed.onCircle hshows.2) w.config.threshold
    have hbuilt := hconfirmed.snap hshows.2 hsnap
    cases hv : previous.isValid with
    | false =>
      cases (plan_of_first hshows hsnap hv).symm.trans hplan
      exact hbuilt
    | true =>
      cases (plan_of_measured hshows hsnap hcircle.isValid hv).symm.trans hplan
      exact hbuilt
  · cases (plan_of_not_shows previous hshows).symm.trans hplan
    exact .whole (.inl rfl)

variable [Host H ℚ] {s : Presentation ℚ ℚ} {body : World ℚ ℚ H → Except Fault (World ℚ ℚ H)}
  {turn : Bracket.Turn (Presentation ℚ ℚ) (World ℚ ℚ H)}

/-- The body of a frame that runs finds the batch in the time record, and in the log with the way
that it covers. After the frame the record tells the batch that it told before. -/
theorem exists_found_of_pos (hplan : plan s.previous w = .ok (pending, now))
    (hpos : 0 < pending.delta) (hrun : run (.idle s) w body = .ok turn) :
    ∃ x i, turn.found = [x] ∧ x.invocation? = some i ∧ i.batch = pending.batch ∧
      i.window.delta = pending.delta ∧ x.time.batch = pending.batch ∧
      turn.context.time.batch = w.time.batch := by
  have hwants := wantsEntry_of_pos hplan hpos
  rcases Bracket.runIn_once_cases hrun with
    ⟨_, _, hdeclines, -⟩ | ⟨_, _, x, _, _, _, hentry, henter, -, hleave, rfl⟩
  · cases hwants.symm.trans hdeclines
  · cases hwants.symm.trans hentry
    cases henter
    obtain ⟨_, -, h⟩ := bind_eq_ok_iff.mp hleave
    cases h
    exact ⟨_, _, rfl, rfl, rfl, rfl, rfl, rfl⟩

/-- How a frame that runs covers its way to `now`. -/
structure Showing.Covers (f : Showing H) (now : Confirmed ℚ) (x : World ℚ ℚ H)
    (i : Invocation ℚ ℚ) : Prop where
  found_eq : f.turn.found = [x]
  invocation_eq : x.invocation? = some i
  delta_eq : i.window.delta = way f.before now f.world.config.step
  /-- The distance of the ticks is not cut off. -/
  ahead : 0 ≤ now.tick.distance f.before.tick
  batch_eq : (i.batch.toNat : ℤ) =
    now.tick.distance f.before.tick + if f.before.isPartial then 1 else 0
  batch_pos : 1 ≤ i.batch.toNat
  /-- The ticks are enough for the time, and less than two too many. -/
  delta_le : i.window.delta ≤ i.batch.toNat * f.world.config.step
  lt_delta : i.batch.toNat * f.world.config.step < i.window.delta + 2 * f.world.config.step
  /-- The time record tells the batch in the body only. -/
  told : x.time.batch = i.batch
  restored : f.turn.context.time.batch = f.world.time.batch

theorem exists_covers (hshows : w.Shows) (hsnap : w.confirmed.snap w.config.threshold = .ok now)
    (hlater : now.isValid = true) (hvalid : s.previous.isValid = true)
    (hprevious : s.previous.Built) (hnow : now.Built)
    (hstep : 0 < w.config.step) (hpos : 0 < way s.previous now w.config.step)
    (hrun : run (.idle s) w body = .ok turn) :
    ∃ x i, Showing.Covers ⟨s.previous, w, turn⟩ now x i := by
  obtain ⟨hahead, hleast, hle, hlt⟩ := covers_way hprevious hnow hstep hpos
  have hplan := plan_of_measured hshows hsnap hlater hvalid
  obtain ⟨x, i, hfound, hinvocation, hbatch, hdelta, htold, hrestored⟩ :=
    exists_found_of_pos hplan hpos hrun
  have hcount : (i.batch.toNat : ℤ) = now.tick.distance s.previous.tick + s.previous.lag :=
    hbatch ▸ toNat_batchOf hahead
  have hcast : (i.batch.toNat : ℚ) =
      (now.tick.distance s.previous.tick + s.previous.lag : ℤ) := by exact_mod_cast hcount
  have hway : i.window.delta = way s.previous now w.config.step := hdelta
  rw [← hcast, ← hway] at hle hlt
  exact ⟨x, i, {
    found_eq := hfound
    invocation_eq := hinvocation
    delta_eq := hdelta
    ahead := hahead
    batch_eq := hcount
    batch_pos := by omega
    delta_le := hle
    lt_delta := hlt
    told := htold.trans hbatch.symm
    restored := hrestored }⟩

/-- A frame with a position to measure from runs if it goes forward, and then it covers its way. -/
def Showing.Measures (f : Showing H) : Prop :=
  f.world.Shows → f.before.isValid = true →
    ∃ now, f.world.confirmed.snap f.world.config.threshold = .ok now ∧
      (f.turn.found ≠ [] ↔ 0 < way f.before now f.world.config.step) ∧
      (f.turn.found ≠ [] → ∃ x i, f.Covers now x i)

/-- What a frame does from a constructed position: it leaves one again, and covers its way. -/
theorem measures_of_run (hprevious : s.previous.Built) (hconfirmed : w.confirmed.Built)
    (hstep : 0 < w.config.step) (hrun : run (.idle s) w body = .ok turn) :
    turn.driver.active = false ∧ turn.driver.state.previous.Built ∧
      Showing.Measures ⟨s.previous, w, turn⟩ := by
  obtain ⟨pending, now, hplan⟩ := exists_plan s.previous fun h => hconfirmed.onCircle h.2
  have hnow := built_of_plan hconfirmed hplan
  obtain ⟨hidle, hcases⟩ := run_cases hplan hrun
  refine ⟨hidle, ?_, fun hshows hvalid => ?_⟩
  · rcases hcases with ⟨-, -, hafter⟩ | ⟨-, hafter, -⟩ <;> rw [hafter]
    · split
      · exact hprevious
      · exact hnow
    · exact hnow
  · obtain ⟨now, hsnap, hcircle, -⟩ :=
      Confirmed.exists_snap (hconfirmed.onCircle hshows.2) w.config.threshold
    have hnow := hconfirmed.snap hshows.2 hsnap
    cases (plan_of_measured hshows hsnap hcircle.isValid hvalid).symm.trans hplan
    refine ⟨now, hsnap, ?_⟩
    rcases hcases with ⟨hnot, hnone, -⟩ | ⟨hpos, -, found, hfound, -⟩
    · exact ⟨iff_of_false (fun h => h hnone) hnot, fun h => absurd hnone h⟩
    · have hran : turn.found ≠ [] := hfound ▸ List.cons_ne_nil found []
      exact ⟨iff_of_true hran hpos, fun _ =>
        exists_covers hshows hsnap hcircle.isValid hvalid hprevious hnow hstep hpos hrun⟩

end Frame

/-! ## Frames in a row -/

section Run

variable {H : Type} [Host H ℚ]

/-- Every frame of a run measures from a constructed position. -/
theorem measures_of_present {cues : List (Cue H)}
    (hcues : ∀ cue ∈ cues, 0 < cue.world.config.step ∧ cue.world.confirmed.Built) :
    ∀ {b : Bracket (Presentation ℚ ℚ)} {shown : List (Showing H)}, b.active = false →
      b.state.previous.Built → present b cues = .ok shown → ∀ f ∈ shown, f.Measures := by
  induction cues with
  | nil =>
    rintro b shown - - ⟨⟩
    exact List.forall_mem_nil _
  | cons cue cues ih =>
    rintro ⟨active, s⟩ shown rfl hprevious hpresent
    obtain ⟨⟨hstep, hconfirmed⟩, hcues⟩ := List.forall_mem_cons.mp hcues
    obtain ⟨turn, hrun, hpresent⟩ := bind_eq_ok_iff.mp hpresent
    obtain ⟨rest, hrest, hshown⟩ := bind_eq_ok_iff.mp hpresent
    cases hshown
    obtain ⟨hidle, hafter, hmeasures⟩ := measures_of_run hprevious hconfirmed hstep hrun
    exact List.forall_mem_cons.mpr ⟨hmeasures, ih hcues hidle hafter hrest⟩

/-- The batch of a presented frame covers its way. In a run of frames with constructed confirmed
ticks, from any constructed position, whatever the ticks and the clamp band, a frame that has a
position to measure from runs exactly if the way from there goes forward. Its batch is then the
distance of the ticks, which is not negative, with the tick that was shown in part counted again; it
is not empty, and its ticks are enough for the delta and less than two too many. The time record
tells it in the body, and what it told before afterwards. A run with steady bodies returns. -/
theorem batches_cover_way {b : Bracket (Presentation ℚ ℚ)} (hidle : b.active = false)
    (hprevious : b.state.previous.Built) {cues : List (Cue H)}
    (hcues : ∀ cue ∈ cues, 0 < cue.world.config.step ∧ cue.world.confirmed.Built) :
    (∀ shown, present b cues = .ok shown → ∀ f ∈ shown, f.world.Shows → f.before.isValid = true →
      ∃ now, f.world.confirmed.snap f.world.config.threshold = .ok now ∧
        (f.turn.found ≠ [] ↔ 0 < way f.before now f.world.config.step) ∧
        (f.turn.found ≠ [] → ∃ x i, f.Covers now x i)) ∧
      ((∀ cue ∈ cues, World.Steady cue.body) → ∃ shown, present b cues = .ok shown) := by
  refine ⟨fun shown hshown f hf => measures_of_present hcues hidle hprevious hshown f hf,
    fun hsteady => exists_present (fun cue hcue => ⟨fun h => ?_, hsteady cue hcue⟩) hidle⟩
  exact (hcues cue hcue).2.onCircle h.2

/-- From the middle of tick `10`, which is counted again, to tick `12`. -/
theorem batches_cover_way_again : ∃ first f now x i,
    present (.idle .start) [.confirming (.inProgress (ofIndex 10) (1 / 2)),
        .confirming (.whole (ofIndex 12))] = .ok [first, f] ∧
      f.Covers now x i ∧ i.batch.toNat = 3 := by
  obtain ⟨cues, hcues⟩ : ∃ cues : List (Cue (TallyHost Rat)),
      cues = [.confirming (.inProgress (ofIndex 10) (1 / 2)), .confirming (.whole (ofIndex 12))] :=
    ⟨_, rfl⟩
  have hall : ∀ cue ∈ cues, 0 < cue.world.config.step ∧ cue.world.confirmed.Built := by
    have hstep : 0 < Config.sixty.step := by decide +kernel
    rw [hcues]
    simp only [List.forall_mem_cons, List.not_mem_nil, false_implies, implies_true, and_true]
    exact ⟨⟨hstep, .inProgress (.inr (.ofIndex 10)) _⟩, ⟨hstep, .whole (.inr (.ofIndex 12))⟩⟩
  have htold : (present (.idle .start) cues).toOption.map (fun shown => shown.map fun f =>
      (decide f.world.Shows, f.before.isValid, f.turn.found.map fun x => x.time.batch.toNat)) =
      some [(true, false, [1]), (true, true, [3])] := by
    rw [hcues]
    decide +kernel
  obtain ⟨hcovers, hreturns⟩ := batches_cover_way (b := .idle start) rfl (.whole (.inl rfl)) hall
  obtain ⟨shown, hshown⟩ := hreturns fun cue hcue w hw => by
    rw [hcues] at hcue
    simp only [List.mem_cons, List.not_mem_nil, or_false] at hcue
    rcases hcue with rfl | rfl <;> exact ⟨w, rfl, hw⟩
  have hcovers := hcovers shown hshown
  rw [hshown] at htold
  obtain ⟨first, _, rfl, -, htold⟩ := List.map_eq_cons_iff.mp (Option.some.inj htold)
  obtain ⟨f, _, rfl, hf, htold⟩ := List.map_eq_cons_iff.mp htold
  obtain rfl := List.map_eq_nil_iff.mp htold
  simp only [Prod.mk.injEq, decide_eq_true_eq] at hf
  obtain ⟨hshows, hvalid, hbatch⟩ := hf
  obtain ⟨now, -, -, hran⟩ := hcovers f (by simp) hshows hvalid
  obtain ⟨x, i, h⟩ := hran fun hnone => by simp [hnone] at hbatch
  rw [h.found_eq, List.map_singleton, h.told] at hbatch
  exact ⟨first, f, now, x, i, hcues ▸ hshown, h, List.singleton_inj.mp hbatch⟩

end Run

end Presentation

end Metronome
