import Mathlib.Algebra.Order.BigOperators.Group.List
import Mathlib.Tactic.NormNum
import Metronome.Clock.Exact
import Metronome.Presentation
import Metronome.Proofs.Accumulator
import Metronome.Proofs.Bracket
import Metronome.Proofs.Cluster
import Metronome.Proofs.Confirmed
import Metronome.Proofs.World

/-!
# Presented time keeps to the confirmed tick

A presented frame covers the way from the position that was shown last to the position of the
confirmed tick, jitter at tick boundaries removed. Over exact time the ways add up: since the frame
that found nothing to measure from, presented time is the way of the position times the length of a
tick, through regressions and stalls alike, until the confirmed tick is lost
(`follows_confirmed_tick`).

`Paces` is what one frame contributes to this. A frame that does not move forward is skipped and
measures nothing, so the next one measures from the same position.
-/

namespace Metronome

open Tick

/-- The ticks from `origin` to a position. A tick under way counts by the part of it that is
done. -/
def Confirmed.position (origin : Tick) (c : Confirmed Rat) : Rat :=
  (c.tick.distance origin : Rat) - 1 + c.fraction

/-- Whether there is a confirmed tick to show. -/
def World.Shows {τ φ H : Type} [Fraction φ] (w : World τ φ H) : Prop :=
  w.inGame = true ∧ w.confirmed.isValid = true

instance {τ φ H : Type} [Fraction φ] (w : World τ φ H) : Decidable w.Shows :=
  inferInstanceAs (Decidable (_ ∧ _))

/-! ## What a frame comes to -/

/-- Whatever boundary a position becomes, it is near the tick that was confirmed. -/
theorem Confirmed.exists_snap {φ : Type} [Fraction φ] {c : Confirmed φ} (hc : c.tick.OnCircle)
    (threshold : φ) :
    ∃ now, c.snap threshold = .ok now ∧ now.tick.OnCircle ∧
      (now.tick = c.tick ∨ now.tick = c.tick.shiftBack 1 ∨
        ¬0 < threshold ∧ (1 : φ) - threshold < 0) := by
  have hvalid : c.isValid = true := hc.isValid
  have hback := hc.shiftBack 1
  have hnext : (c.tick.shiftBack 1).next = .ok c.tick := by
    rw [next, advance_eq_ok hback.isValid, shift_shiftBack]
  unfold snap completed
  simp only [hvalid, Bool.not_true, Bool.false_eq_true, if_false]
  cases c.isPartial with
  | true =>
    simp only [if_true, prev, rewind_eq_ok hvalid, ok_bind, hnext, pure_eq_ok]
    split
    · exact ⟨_, rfl, hback, Or.inr (Or.inl rfl)⟩
    split
    · exact ⟨_, rfl, hc, Or.inl rfl⟩
    · exact ⟨_, rfl, hc, Or.inl rfl⟩
  | false =>
    simp only [Bool.false_eq_true, if_false, ok_bind, pure_eq_ok, next, advance_eq_ok hvalid]
    split
    · exact ⟨_, rfl, hc, Or.inl rfl⟩
    split
    · rename_i hlow hhigh
      exact ⟨_, rfl, hc.shift 1, Or.inr (Or.inr ⟨hlow, hhigh⟩)⟩
    · exact ⟨_, rfl, hc, Or.inl rfl⟩

namespace Presentation

section Frame

variable {τ φ H : Type} [Seconds τ] [Fraction φ] [Clock τ φ]

theorem addChecked_again {n : Nat} (hn : n < 1073741824) (again : Bool) :
    ∃ batch, addChecked n.toUInt32 (if again then 1 else 0) = .ok batch := by
  refine ⟨_, addChecked_eq_ok_iff.mpr ⟨?_, rfl⟩⟩
  have hsize : UInt32.size = 4294967296 := rfl
  have hword : n.toUInt32.toNat = n := by
    rw [Nat.toUInt32_eq, UInt32.toNat_ofNat']
    omega
  have hagain : (if again then (1 : UInt32) else 0).toNat ≤ 1 := by cases again <;> decide
  omega

/-- The seconds from one position to another. -/
def way (previous now : Confirmed φ) (step : τ) : τ :=
  (Seconds.ofInt (now.tick.distance previous.tick) + Clock.ofFraction now.fraction -
    Clock.ofFraction previous.fraction) * step

variable {previous now : Confirmed φ} {w : World τ φ H}

/-- Without a confirmed tick to show, a frame is planned in real time. -/
theorem plan_of_not_shows (previous : Confirmed φ) (h : ¬w.Shows) :
    plan previous w = .ok (real Tick.invalid 1 w.frame.delta, Confirmed.invalid) := by
  cases hgame : w.inGame with
  | false => simp [plan, hgame]
  | true =>
    have hnone : w.confirmed.isValid = false := by simpa [World.Shows, hgame] using h
    simp [plan, hgame, hnone]

/-- So it is without a position to measure from. -/
theorem plan_of_first (h : w.Shows) (hnow : w.confirmed.snap w.config.threshold = .ok now)
    (hprevious : previous.isValid = false) :
    plan previous w = .ok (real now.tick now.fraction w.frame.delta, now) := by
  simp [plan, h.1, h.2, hnow, hprevious]

/-- Otherwise it takes as long as the way from the last position. -/
theorem exists_plan_of_measured (h : w.Shows)
    (hnow : w.confirmed.snap w.config.threshold = .ok now) (hvalid : now.tick.isValid = true)
    (hprevious : previous.isValid = true) :
    ∃ batch, plan previous w =
      .ok (⟨now.tick, now.fraction, way previous now w.config.step, batch⟩, now) := by
  have hlt := Tick.distance_lt now.tick previous.tick
  obtain ⟨batch, hbatch⟩ := addChecked_again
    (n := (max (now.tick.distance previous.tick) 0).toNat) (by omega) previous.isPartial
  have hmoved : moved previous now w.config.step =
      .ok ⟨now.tick, now.fraction, way previous now w.config.step, batch⟩ := by
    unfold moved
    rw [since_eq_ok hvalid hprevious, ok_bind]
    dsimp only
    rw [hbatch]
    rfl
  exact ⟨batch, by simp [plan, h.1, h.2, hnow, hprevious, hmoved]⟩

/-- Every frame whose confirmed tick is on the circle has a plan. -/
theorem exists_plan (previous : Confirmed φ) (hc : w.Shows → w.confirmed.tick.OnCircle) :
    ∃ pending now, plan previous w = .ok (pending, now) := by
  by_cases hshows : w.Shows
  · obtain ⟨now, hnow, hcircle, -⟩ := Confirmed.exists_snap (hc hshows) w.config.threshold
    cases hv : previous.isValid with
    | false => exact ⟨_, _, plan_of_first hshows hnow hv⟩
    | true =>
      obtain ⟨batch, hplan⟩ := exists_plan_of_measured hshows hnow hcircle.isValid hv
      exact ⟨_, _, hplan⟩
  · exact ⟨_, _, plan_of_not_shows previous hshows⟩

variable [Host H τ] {s : Presentation τ φ} {body : World τ φ H → Except Fault (World τ φ H)}
  {pending : Presented τ φ}

/-- A frame that would not move forward is declined. -/
theorem wantsEntry_of_not_pos (hplan : plan s.previous w = .ok (pending, now))
    (hpos : ¬0 < pending.delta) :
    hooks.wantsEntry (s, w) = .ok (false,
      { s with previous := if pending.tick.isValid then s.previous else now },
      w.record (.skipped .presentation .nonPositiveDelta)) := by
  show wantsEntry (s, w) = _
  simp only [wantsEntry, hplan, ok_bind, hpos, if_false]
  rfl

/-- Another one is entered as it was planned. -/
theorem wantsEntry_of_pos (hplan : plan s.previous w = .ok (pending, now))
    (hpos : 0 < pending.delta) :
    hooks.wantsEntry (s, w) =
      .ok (true, ({ s with previous := now, pending } : Presentation τ φ), w) := by
  show wantsEntry (s, w) = _
  simp only [wantsEntry, hplan, ok_bind, hpos, if_true]
  rfl

/-- What a frame comes to: it is skipped, or it runs once, for as long as it was planned. -/
theorem run_cases (hplan : plan s.previous w = .ok (pending, now))
    {turn : Bracket.Turn (Presentation τ φ) (World τ φ H)}
    (hrun : run (.idle s) w body = .ok turn) :
    turn.driver.active = false ∧
      (¬0 < pending.delta ∧ turn.found = [] ∧ turn.driver.state.previous =
          (if pending.tick.isValid then s.previous else now) ∨
        0 < pending.delta ∧ turn.driver.state.previous = now ∧ ∃ found, turn.found = [found] ∧
          found.invocation?.map (fun i => i.window.delta) = some pending.delta) := by
  rcases Bracket.runIn_once_cases hrun with
    ⟨s', w', hwants, rfl⟩ | ⟨x, s₁, w₁, w₂, s', w', hwants, henter, -, hleave, rfl⟩
  all_goals
    refine ⟨rfl, ?_⟩
    by_cases hpos : 0 < pending.delta
  · cases (wantsEntry_of_pos hplan hpos).symm.trans hwants
  · cases (wantsEntry_of_not_pos hplan hpos).symm.trans hwants
    exact Or.inl ⟨hpos, rfl, rfl⟩
  · cases (wantsEntry_of_pos hplan hpos).symm.trans hwants
    cases henter
    obtain ⟨w₃, -, h⟩ := bind_eq_ok_iff.mp hleave
    cases h
    exact Or.inr ⟨hpos, rfl, _, rfl, rfl⟩
  · cases (wantsEntry_of_not_pos hplan hpos).symm.trans hwants

/-- A frame whose confirmed tick is on the circle returns if its body is steady. -/
theorem exists_run (s : Presentation τ φ) (hc : w.Shows → w.confirmed.tick.OnCircle)
    (hsteady : World.Steady body) : ∃ turn, run (.idle s) w body = .ok turn := by
  obtain ⟨pending, now, hplan⟩ := exists_plan s.previous hc
  by_cases hpos : 0 < pending.delta
  · let x := enter ({ s with previous := now, pending }, w)
    obtain ⟨w₂, hbody, hdepth⟩ := hsteady x.2 (Nat.succ_pos _)
    obtain ⟨w₃, hexit⟩ := World.exists_exitScope hdepth
    have hleave : hooks.leave (x.1, w₂) =
        .ok (x.1, { w₃ with time := { w₃.time with batch := x.1.savedBatch } }) := by
      show leave (x.1, w₂) = _
      simp only [leave, hexit, ok_bind]
      rfl
    exact ⟨_, Bracket.runIn_once_of_entered (wantsEntry_of_pos hplan hpos) rfl hbody hleave⟩
  · exact ⟨_, Bracket.runIn_of_declined (wantsEntry_of_not_pos hplan hpos)⟩

end Frame

/-! ## Exact time -/

variable {H : Type}

/-- Over exact time a way is the difference of two positions. -/
theorem way_eq {S : Set Tick} (hS : Cluster S) {previous now : Confirmed Rat}
    (hprevious : Around S previous.tick) (hnow : Around S now.tick) {origin : Tick}
    (horigin : Around S origin) (step : Rat) :
    way previous now step = step * (now.position origin - previous.position origin) := by
  have hadd := hS.distance_add hnow hprevious horigin
  show ((now.tick.distance previous.tick : Rat) + now.fraction - previous.fraction) * step = _
  unfold Confirmed.position
  rw [hadd]
  push_cast
  ring

/-- What can be said of the frame that is planned. -/
structure Plans (S : Set Tick) (previous : Confirmed Rat) (w : World Rat Rat H)
    (pending : Presented Rat Rat) (now : Confirmed Rat) : Prop where
  /-- Without a confirmed tick to show, the frame names none and forgets the last one. -/
  lost : ¬w.Shows → pending.tick.isValid = false ∧ now.isValid = false
  /-- Otherwise it ends on the confirmed tick. -/
  snapped : w.Shows → w.confirmed.snap w.config.threshold = .ok now ∧ Around S now.tick ∧
    pending.tick = now.tick
  /-- Without a position to measure from, real time is shown. -/
  seeds : w.Shows → previous.isValid = false → pending.delta = w.frame.delta
  /-- Otherwise the way from the last position. -/
  measures : w.Shows → previous.isValid = true → ∀ origin, Around S origin →
    pending.delta = w.config.step * (now.position origin - previous.position origin)

/-- Every frame of a run has a plan. -/
theorem exists_plans {S : Set Tick} (hS : Cluster S) {previous : Confirmed Rat}
    {w : World Rat Rat H} (hprevious : previous.isValid = true → Around S previous.tick)
    (hnear : w.Shows → w.confirmed.tick ∈ S) :
    ∃ pending now, plan previous w = .ok (pending, now) ∧ Plans S previous w pending now := by
  by_cases hshows : w.Shows
  · have hmem := hnear hshows
    obtain ⟨now, hnow, hcircle, hcases⟩ :=
      Confirmed.exists_snap (hS.onCircle _ hmem) w.config.threshold
    have haround : Around S now.tick := by
      rcases hcases with heq | heq | ⟨hlow, hhigh⟩
      · exact heq ▸ .of_mem hmem
      · exact heq ▸ .of_mem_shiftBack hmem
      · -- a threshold that is not positive is not more than one
        exact absurd hhigh (by linarith [not_lt.mp hlow])
    by_cases hv : previous.isValid = true
    · obtain ⟨batch, hplan⟩ := exists_plan_of_measured hshows hnow hcircle.isValid hv
      exact ⟨_, now, hplan, {
        lost := fun h => absurd hshows h
        snapped := fun _ => ⟨hnow, haround, rfl⟩
        seeds := fun _ h => absurd (hv.symm.trans h) Bool.noConfusion
        measures := fun _ _ _ horigin => way_eq hS (hprevious hv) haround horigin _ }⟩
    · exact ⟨_, now, plan_of_first hshows hnow (by simpa using hv), {
        lost := fun h => absurd hshows h
        snapped := fun _ => ⟨hnow, haround, rfl⟩
        seeds := fun _ _ => rfl
        measures := fun _ h => absurd h hv }⟩
  · exact ⟨_, _, plan_of_not_shows previous hshows, {
      lost := fun _ => ⟨rfl, rfl⟩
      snapped := fun h => absurd h hshows
      seeds := fun h => absurd h hshows
      measures := fun h => absurd h hshows }⟩

/-! ## One frame of a run -/

/-- A presented frame: the position that was shown last, the world, and what became of it. -/
structure Showing (H : Type) where
  before : Confirmed Rat
  world : World Rat Rat H
  turn : Bracket.Turn (Presentation Rat Rat) (World Rat Rat H)

namespace Showing

/-- The position that was shown last after the frame. -/
def after (f : Showing H) : Confirmed Rat :=
  f.turn.driver.state.previous

/-- The time that the bodies of the frame saw. -/
def deltas (f : Showing H) : List Rat :=
  f.turn.found.filterMap fun w => w.invocation?.map fun i => i.window.delta

/-- Whether the frame shows a confirmed tick in real time, because it has no position to measure
from. -/
def Seeds (f : Showing H) : Prop :=
  f.world.Shows ∧ f.before.isValid = false ∧ 0 < f.world.frame.delta

instance (f : Showing H) : Decidable f.Seeds :=
  inferInstanceAs (Decidable (_ ∧ _))

/-- What a frame contributes to presented time. -/
structure Paces (S : Set Tick) (f : Showing H) : Prop where
  /-- The driver is ready for the next frame. -/
  idle : f.turn.driver.active = false
  /-- The next frame can measure from the position. -/
  around : f.after.isValid = true → Around S f.after.tick
  /-- Every body sees time move forward. -/
  deltas_pos : f.deltas.length = f.turn.count ∧ ∀ delta ∈ f.deltas, 0 < delta
  /-- A frame that seeds shows the confirmed tick. -/
  seeds : f.Seeds → f.world.confirmed.snap f.world.config.threshold = .ok f.after ∧
    f.after.isValid = true
  /-- A frame that is skipped measures nothing. -/
  skips : f.world.Shows → f.turn.found = [] → f.after = f.before
  /-- Another one measures its way. -/
  measures : f.world.Shows → f.before.isValid = true → f.after.isValid = true ∧
    ∀ origin, Around S origin → f.deltas.sum =
      f.world.config.step * (f.after.position origin - f.before.position origin)

end Showing

/-! ## Frames in a row -/

/-- Frames that each measure from where the one before left off. -/
inductive Reel (config : Config Rat Rat) (S : Set Tick) : Confirmed Rat → List (Showing H) → Prop
  /-- No frame. -/
  | nil {p : Confirmed Rat} : Reel config S p []
  /-- A frame, and those after it. -/
  | cons {f : Showing H} {fs : List (Showing H)} (config_eq : f.world.config = config)
      (paces : f.Paces S) (rest : Reel config S f.after fs) : Reel config S f.before (f :: fs)

namespace Reel

variable {config : Config Rat Rat} {S : Set Tick} {p : Confirmed Rat} {f : Showing H}
  {fs gs : List (Showing H)}

theorem paces_of_mem (h : Reel config S p fs) (hf : f ∈ fs) : f.Paces S := by
  induction h with
  | nil => cases hf
  | cons _ paces _ ih =>
    rcases List.mem_cons.mp hf with rfl | hf
    · exact paces
    · exact ih hf

theorem take (h : Reel config S p (fs ++ gs)) : Reel config S p fs := by
  induction fs generalizing p with
  | nil => exact .nil
  | cons f fs ih =>
    cases h with
    | cons config_eq paces rest => exact .cons config_eq paces (ih rest)

theorem drop (h : Reel config S p (fs ++ f :: gs)) :
    f.world.config = config ∧ Reel config S f.after gs := by
  induction fs generalizing p with
  | nil =>
    cases h with
    | cons config_eq _ rest => exact ⟨config_eq, rest⟩
  | cons g fs ih =>
    cases h with
    | cons _ _ rest => exact ih rest

/-- Frames that all show a confirmed tick, the first of which has a position to measure from: their
time is the way from there, and every frame that ran went forward. -/
theorem telescopes (hstep : 0 < config.step) (h : Reel config S p fs) (hp : p.isValid = true)
    (hshows : ∀ f ∈ fs, f.world.Shows) {origin : Tick} (horigin : Around S origin) :
    (fs.flatMap Showing.deltas).sum = config.step *
        (((fs.map Showing.after).getLastD p).position origin - p.position origin) ∧
      ∀ f ∈ fs, (f.turn.found = [] → f.after = f.before) ∧
        (f.turn.found ≠ [] → f.before.position origin < f.after.position origin) := by
  induction h with
  | nil => simp
  | @cons f fs config_eq paces rest ih =>
    obtain ⟨hshow, hshows⟩ := List.forall_mem_cons.mp hshows
    obtain ⟨hafter, hway⟩ := paces.measures hshow hp
    obtain ⟨hsum, hforward⟩ := ih hafter hshows
    have hdelta := hway origin horigin
    rw [config_eq] at hdelta
    constructor
    · rw [List.flatMap_cons, List.sum_append, hdelta, hsum, List.map_cons, List.getLastD_cons]
      ring
    refine List.forall_mem_cons.mpr ⟨⟨paces.skips hshow, fun hran => ?_⟩, hforward⟩
    -- a frame that ran has a delta, and all of its deltas are positive
    have hpos : 0 < f.deltas.sum := by
      refine List.sum_pos f.deltas paces.deltas_pos.2 fun hnone => hran ?_
      rw [← List.length_eq_zero_iff, ← Bracket.Turn.count, ← paces.deltas_pos.1, hnone]
      rfl
    rw [hdelta] at hpos
    linarith [(mul_pos_iff_of_pos_left hstep).mp hpos]

end Reel

/-! ## Runs -/

/-- A world and the systems that run once per frame in it. -/
structure Cue (H : Type) where
  world : World Rat Rat H
  body : World Rat Rat H → Except Fault (World Rat Rat H)

variable [Host H Rat]

/-- A frame of a run: its settings are those of the run, and its confirmed tick, if it shows one, is
among the ticks of the run. -/
structure Cue.Regular (config : Config Rat Rat) (S : Set Tick) (cue : Cue H) : Prop where
  config_eq : cue.world.config = config
  near : cue.world.Shows → cue.world.confirmed.tick ∈ S

/-- Every frame contributes its way to presented time. -/
theorem paces_of_run {S : Set Tick} (hS : Cluster S) {s : Presentation Rat Rat}
    (hprevious : s.previous.isValid = true → Around S s.previous.tick) {w : World Rat Rat H}
    (hnear : w.Shows → w.confirmed.tick ∈ S)
    {body : World Rat Rat H → Except Fault (World Rat Rat H)}
    {turn : Bracket.Turn (Presentation Rat Rat) (World Rat Rat H)}
    (hrun : run (.idle s) w body = .ok turn) : Showing.Paces S ⟨s.previous, w, turn⟩ := by
  obtain ⟨pending, now, hplan, plans⟩ := exists_plans hS hprevious hnear
  have hnow : now.isValid = true → Around S now.tick := fun hv => by
    by_contra hnot
    have hlost : ¬w.Shows := fun h => hnot (plans.snapped h).2.1
    exact absurd (hv.symm.trans (plans.lost hlost).2) Bool.noConfusion
  have hvalid : w.Shows → now.isValid = true := fun h =>
    (hS.onCircle_of_around (plans.snapped h).2.1).isValid
  obtain ⟨hidle, ⟨hpos, hfound, hafter⟩ | ⟨hpos, hafter, found, hfound, hdelta⟩⟩ :=
    run_cases hplan hrun
  · have hdeltas : Showing.deltas ⟨s.previous, w, turn⟩ = [] := by simp [Showing.deltas, hfound]
    have hkeeps : w.Shows → turn.driver.state.previous = s.previous := fun h => by
      rw [hafter, (plans.snapped h).2.2]
      exact if_pos (hvalid h)
    constructor
    case idle => exact hidle
    case around =>
      show turn.driver.state.previous.isValid = true → Around S turn.driver.state.previous.tick
      rw [hafter]
      split
      · exact hprevious
      · exact hnow
    case deltas_pos => simp [hdeltas, Bracket.Turn.count, hfound]
    case seeds => exact fun h => absurd (plans.seeds h.1 h.2.1 ▸ h.2.2) hpos
    case skips => exact fun hshows _ => hkeeps hshows
    case measures =>
      intro hshows hv
      have hsame : Showing.after ⟨s.previous, w, turn⟩ = s.previous := hkeeps hshows
      rw [hsame]
      exact ⟨hv, fun origin _ => by rw [hdeltas, sub_self, mul_zero]; rfl⟩
  · obtain rfl : turn.driver.state.previous = now := hafter
    have hdeltas : Showing.deltas ⟨s.previous, w, turn⟩ = [pending.delta] := by
      simp [Showing.deltas, hfound, hdelta]
    constructor
    case idle => exact hidle
    case around => exact hnow
    case deltas_pos => simp [hdeltas, hpos, Bracket.Turn.count, hfound]
    case seeds => exact fun h => ⟨(plans.snapped h.1).1, hvalid h.1⟩
    case skips => exact fun _ hnone => absurd (hfound.symm.trans hnone) (List.cons_ne_nil _ _)
    case measures =>
      intro hshows hv
      refine ⟨hvalid hshows, fun origin horigin => ?_⟩
      rw [hdeltas, List.sum_singleton]
      exact plans.measures hshows hv origin horigin

/-- The frames of a run, one after another. Between them anything may happen to the world. -/
def present (b : Bracket (Presentation Rat Rat)) :
    List (Cue H) → Except Fault (List (Showing H))
  | [] => .ok []
  | cue :: cues => do
    let turn ← run b cue.world cue.body
    return ⟨b.state.previous, cue.world, turn⟩ :: (← present turn.driver cues)

/-- The frames of a run measure from one another. -/
theorem reel_of_present {config : Config Rat Rat} {S : Set Tick} (hS : Cluster S)
    {cues : List (Cue H)} (hcues : ∀ cue ∈ cues, cue.Regular config S) :
    ∀ {b : Bracket (Presentation Rat Rat)} {shown : List (Showing H)}, b.active = false →
      (b.state.previous.isValid = true → Around S b.state.previous.tick) →
      present b cues = .ok shown → Reel config S b.state.previous shown := by
  induction cues with
  | nil =>
    rintro b shown - - ⟨⟩
    exact .nil
  | cons cue cues ih =>
    rintro ⟨active, s⟩ shown rfl hprevious hpresent
    obtain ⟨hcue, hcues⟩ := List.forall_mem_cons.mp hcues
    obtain ⟨turn, hrun, hpresent⟩ := bind_eq_ok_iff.mp hpresent
    obtain ⟨rest, hrest, hshown⟩ := bind_eq_ok_iff.mp hpresent
    cases hshown
    have hpaces := paces_of_run hS hprevious hcue.near hrun
    exact .cons hcue.config_eq hpaces (ih hcues hpaces.idle hpaces.around hrest)

/-- A run with steady bodies returns. -/
theorem exists_present {cues : List (Cue H)} (hcues : ∀ cue ∈ cues,
    (cue.world.Shows → cue.world.confirmed.tick.OnCircle) ∧ World.Steady cue.body) :
    ∀ {b : Bracket (Presentation Rat Rat)}, b.active = false →
      ∃ shown, present b cues = .ok shown := by
  induction cues with
  | nil => exact fun _ => ⟨[], rfl⟩
  | cons cue cues ih =>
    rintro ⟨active, s⟩ rfl
    obtain ⟨⟨hcircle, hsteady⟩, hcues⟩ := List.forall_mem_cons.mp hcues
    obtain ⟨pending, now, hplan⟩ := exists_plan s.previous hcircle
    obtain ⟨turn, hrun⟩ := exists_run s hcircle hsteady
    obtain ⟨rest, hrest⟩ := ih hcues (run_cases hplan hrun).1
    exact ⟨_, bind_eq_ok_iff.mpr ⟨turn, hrun, bind_eq_ok_iff.mpr ⟨rest, hrest, rfl⟩⟩⟩

/-- Presented time keeps to the confirmed tick. In a run of frames, whatever their deltas and their
confirmed ticks, no body sees a delta that is not positive. From a frame that seeds to the next one
without a confirmed tick to show, the deltas add up to the way of the position that was shown last,
which changes in no frame that is skipped and goes forward in every one that runs. A run with steady
bodies returns. -/
theorem follows_confirmed_tick {config : Config Rat Rat} (hstep : 0 < config.step) {S : Set Tick}
    (hS : Cluster S) {cues : List (Cue H)} (hcues : ∀ cue ∈ cues, cue.Regular config S) :
    (∀ shown, present (.idle .start) cues = .ok shown →
      (∀ f ∈ shown, f.deltas.length = f.turn.count ∧ ∀ delta ∈ f.deltas, 0 < delta) ∧
      ∀ earlier seed segment later, shown = earlier ++ seed :: (segment ++ later) →
        seed.Seeds → (∀ f ∈ segment, f.world.Shows) →
        ∃ seeded, seed.world.confirmed.snap config.threshold = .ok seeded ∧ seed.after = seeded ∧
          ∀ origin, Around S origin →
            (segment.flatMap Showing.deltas).sum = config.step *
              (((segment.map Showing.after).getLastD seeded).position origin -
                seeded.position origin) ∧
            ∀ f ∈ segment, (f.turn.found = [] → f.after = f.before) ∧
              (f.turn.found ≠ [] → f.before.position origin < f.after.position origin)) ∧
      ((∀ cue ∈ cues, World.Steady cue.body) →
        ∃ shown, present (.idle .start) cues = .ok shown) := by
  refine ⟨fun shown hshown => ?_, fun hsteady => ?_⟩
  · have hstart : (start : Presentation Rat Rat).previous.isValid = true →
        Around S (start : Presentation Rat Rat).previous.tick := fun h => absurd h (by decide)
    have hreel := reel_of_present hS hcues (b := .idle start) rfl hstart hshown
    refine ⟨fun f hf => (hreel.paces_of_mem hf).deltas_pos, ?_⟩
    rintro earlier seed segment later rfl hseeds hshows
    have hseed := hreel.paces_of_mem (List.mem_append_right earlier List.mem_cons_self)
    obtain ⟨hconfig, hrest⟩ := hreel.drop
    obtain ⟨hsnap, hvalid⟩ := hseed.seeds hseeds
    rw [hconfig] at hsnap
    exact ⟨seed.after, hsnap, rfl, fun origin horigin =>
      hrest.take.telescopes hstep hvalid hshows horigin⟩
  · have hall : ∀ cue ∈ cues,
        (cue.world.Shows → cue.world.confirmed.tick.OnCircle) ∧ World.Steady cue.body :=
      fun cue hcue => ⟨fun h => hS.onCircle _ ((hcues cue hcue).near h), hsteady cue hcue⟩
    exact exists_present hall rfl

/-- A sixtieth of a second in which a tick is confirmed and no system acts. -/
def Cue.confirming (c : Confirmed Rat) : Cue (TallyHost Rat) where
  world := { (World.start Config.sixty TallyHost.empty).beginFrame (1 / 60) with confirmed := c }
  body := .ok

theorem Cue.regular_confirming {S : Set Tick} {c : Confirmed Rat} (hc : c.tick ∈ S) :
    (Cue.confirming c).Regular Config.sixty S where
  config_eq := rfl
  near _ := hc

/-- From the middle of tick `10` to tick `12`, back to `11`, and on to `13`, which the beginning of
tick `14` becomes. -/
theorem follows_confirmed_tick_sixty : ∃ seed segment,
    present (.idle .start) [.confirming (.inProgress (ofIndex 10) (1 / 2)),
        .confirming (.whole (ofIndex 12)), .confirming (.whole (ofIndex 11)),
        .confirming (.inProgress (ofIndex 14) (1 / 50))] = .ok (seed :: segment) ∧
      segment.map (fun f => f.turn.count) = [1, 0, 1] ∧
      (segment.flatMap Showing.deltas).sum = 7 / 120 := by
  obtain ⟨cues, hcues⟩ : ∃ cues, cues = [Cue.confirming (.inProgress (ofIndex 10) (1 / 2)),
      .confirming (.whole (ofIndex 12)), .confirming (.whole (ofIndex 11)),
      .confirming (.inProgress (ofIndex 14) (1 / 50))] := ⟨_, rfl⟩
  let S : Set Tick := {t | t ∈ [ofIndex 10, ofIndex 11, ofIndex 12, ofIndex 14]}
  have hS : Cluster S := by
    refine ⟨fun t ht => ?_, ?_⟩
    · obtain ⟨i, rfl⟩ : ∃ i, t = ofIndex i := by
        have h : t = ofIndex 10 ∨ t = ofIndex 11 ∨ t = ofIndex 12 ∨ t = ofIndex 14 := by
          simpa [S] using ht
        rcases h with rfl | rfl | rfl | rfl <;> exact ⟨_, rfl⟩
      exact OnCircle.ofIndex i
    · show ∀ t ∈ [ofIndex 10, ofIndex 11, ofIndex 12, ofIndex 14],
        ∀ u ∈ [ofIndex 10, ofIndex 11, ofIndex 12, ofIndex 14], t.Near u
      decide
  have hregular : ∀ cue ∈ cues, cue.Regular Config.sixty S := by
    rw [hcues]
    simp only [List.forall_mem_cons, List.not_mem_nil, false_implies, implies_true, and_true]
    refine ⟨?_, ?_, ?_, ?_⟩ <;>
      exact Cue.regular_confirming (by simp [S, Confirmed.inProgress, Confirmed.whole])
  have htold : (present (.idle .start) cues).toOption.map (fun shown => shown.map fun f =>
      (decide f.Seeds, decide f.world.Shows, f.turn.count, f.after.tick, f.after.fraction)) =
      some [(true, true, 1, ofIndex 10, 1 / 2), (false, true, 1, ofIndex 12, 1),
        (false, true, 0, ofIndex 12, 1), (false, true, 1, ofIndex 13, 1)] := by
    rw [hcues]
    decide +kernel
  obtain ⟨hall, hreturns⟩ := follows_confirmed_tick (by decide +kernel) hS hregular
  obtain ⟨shown, hshown⟩ := hreturns fun cue hcue w hw => by
    rw [hcues] at hcue
    simp only [List.mem_cons, List.not_mem_nil, or_false] at hcue
    rcases hcue with rfl | rfl | rfl | rfl <;> exact ⟨w, rfl, hw⟩
  obtain ⟨-, hall⟩ := hall shown hshown
  rw [hshown] at htold
  obtain ⟨seed, _, rfl, hseed, htold⟩ := List.map_eq_cons_iff.mp (Option.some.inj htold)
  obtain ⟨f, _, rfl, hf, htold⟩ := List.map_eq_cons_iff.mp htold
  obtain ⟨g, _, rfl, hg, htold⟩ := List.map_eq_cons_iff.mp htold
  obtain ⟨h, _, rfl, hh, htold⟩ := List.map_eq_cons_iff.mp htold
  obtain rfl := List.map_eq_nil_iff.mp htold
  simp only [Prod.mk.injEq, decide_eq_true_eq] at hseed hf hg hh
  obtain ⟨hseeds, -, -, hat, hpart⟩ := hseed
  obtain ⟨-, hshowsh, hran, hlast, hwhole⟩ := hh
  obtain ⟨seeded, -, rfl, hways⟩ :=
    hall [] seed [f, g, h] [] rfl hseeds (by simp [hf.2.1, hg.2.1, hshowsh])
  refine ⟨seed, [f, g, h], hcues ▸ hshown, by simp [hf.2.2.1, hg.2.2.1, hran], ?_⟩
  rw [(hways (ofIndex 10) (.of_mem (by simp [S]))).1]
  have hthree : (ofIndex 13).distance (ofIndex 10) = 3 := by decide
  show (1 / 60 : Rat) * (h.after.position _ - seed.after.position _) = _
  simp only [Confirmed.position, hat, hpart, hlast, hwhole, distance_self, hthree]
  norm_num

end Presentation

end Metronome
