import Metronome.Proofs.Prediction.Budgets
import Metronome.Proofs.Commute
import Mathlib.Tactic.Ring
import Mathlib.Algebra.Order.Ring.Rat

/-!
# The time of a burst

Over exact time the windows of a burst follow one another. A replay places its windows by their
distance from the target, backward from a baseline, and so each batch takes up where the one before
ended and the last one ends at the baseline (`Replay.spans`). The window for the part of a tick is
placed by another rule, at the end of the frame. It begins at the baseline because the baseline is
that part of a tick before the end of the frame (`Timed.spans`). If a body begins another frame, the
window moves with it and the baseline does not (`windows_apart_across_frames`).
-/

namespace Metronome

open Tick

/-- Windows that span the time from one moment to another: each begins where the one before
ended. -/
def Spans : Rat → List (Window Rat) → Rat → Prop
  | t, [], u => t = u
  | t, w :: ws, u => w.elapsed - w.delta = t ∧ Spans w.elapsed ws u

/-- The time that windows take together. -/
def duration : List (Window Rat) → Rat
  | [] => 0
  | w :: ws => w.delta + duration ws

theorem duration_append (ws vs : List (Window Rat)) :
    duration (ws ++ vs) = duration ws + duration vs := by
  induction ws with
  | nil => exact (zero_add _).symm
  | cons w ws ih => rw [List.cons_append, duration, duration, ih, add_assoc]

theorem spans_append {ws vs : List (Window Rat)} {t u : Rat} :
    Spans t (ws ++ vs) u ↔ ∃ v, Spans t ws v ∧ Spans v vs u := by
  induction ws generalizing t with
  | nil => simp [Spans]
  | cons w ws ih => simp [Spans, ih, and_assoc]

namespace Spans

variable {ws : List (Window Rat)} {t u : Rat}

/-- Windows that span some time take that time together. -/
theorem duration_eq (h : Spans t ws u) : duration ws = u - t := by
  induction ws generalizing t with
  | nil =>
    obtain rfl : t = u := h
    exact (sub_self t).symm
  | cons w ws ih =>
    obtain ⟨hstart, hrest⟩ := h
    rw [duration, ih hrest, ← hstart]
    ring

/-- The last window ends at the end. -/
theorem getLast (h : Spans t ws u) (hne : ws ≠ []) : (ws.getLast hne).elapsed = u := by
  induction ws generalizing t with
  | nil => exact absurd rfl hne
  | cons w ws ih =>
    obtain ⟨-, hrest⟩ := h
    by_cases hnil : ws = []
    · subst hnil
      exact hrest
    · rw [List.getLast_cons hnil]
      exact ih hrest hnil

/-- Each window begins where the one before ended. -/
theorem isChain (h : Spans t ws u) : ws.IsChain fun v w => w.elapsed - w.delta = v.elapsed := by
  induction ws generalizing t with
  | nil => exact .nil
  | cons w ws ih =>
    obtain ⟨-, hrest⟩ := h
    cases ws with
    | nil => exact .singleton w
    | cons v ws => exact .cons_cons hrest.1 (ih hrest)

end Spans

namespace Prediction

variable {φ H : Type} [Fraction φ] {near far : List Tick} {s s' : Prediction Rat φ}
  {is : List (Invocation Rat φ)} {step : Rat}

/-- The windows of a replay span the time up to the baseline. -/
theorem Replay.spans (h : Replay (fun config => config.step = step) far near s is s') :
    Spans (s.baseline - step * (s.target.distance s.start : Int)) (is.map Invocation.window)
      s.baseline := by
  induction h with
  | arrived on =>
    rw [on.start_eq_target, distance_self]
    simp [Spans]
  | @hop s s' point near config flags is on legal _ ih =>
    subst legal
    refine ⟨?_, ih⟩
    show s.baseline - config.step * (s.target.distance _ : Int) -
      config.step * ((s.nextLength config point).toNat : Int) = _
    rw [on.target_distance_stop config]
    push_cast
    ring

variable [Clock Rat φ]

/-- The seconds from the target to the confirmed position: those of the part of a tick, if the
confirmed tick is under way. -/
def lagTime (c : Confirmed φ) (step : Rat) : Rat :=
  if c.isPartial then step * Clock.ofFraction c.fraction else 0

theorem baselineOf_eq (c : Confirmed φ) (step elapsed : Rat) :
    baselineOf c step elapsed = elapsed - lagTime c step := by
  unfold baselineOf lagTime
  split
  · rfl
  · exact (sub_zero elapsed).symm

/-- The windows of a burst from a start, those of whole ticks and the rest, with the frame at
`elapsed` when the burst is set up and at `now` when its last body runs. -/
structure Timed (step : Rat) (c : Confirmed φ) (start : Tick) (elapsed now : Rat)
    (whole rest : List (Window Rat)) : Prop where
  /-- The windows of whole ticks span the time from the start to the target. -/
  whole : Spans (elapsed - lagTime c step - step * (c.target.distance start : Int)) whole
    (elapsed - lagTime c step)
  /-- The window for the part of a tick ends with the frame. -/
  rest : rest = if c.isPartial then [⟨now, lagTime c step⟩] else []

namespace Timed

variable {c : Confirmed φ} {start : Tick} {elapsed now : Rat} {whole rest : List (Window Rat)}

/-- Together the windows take the ticks from the start to the target, and the part of a tick. -/
theorem duration_eq (h : Timed step c start elapsed now whole rest) :
    duration (whole ++ rest) = step * (c.target.distance start : Int) + lagTime c step := by
  have hrest : duration rest = lagTime c step := by
    rw [h.rest]
    split
    · exact add_zero _
    · simp [lagTime, duration, *]
  rw [duration_append, h.whole.duration_eq, hrest]
  ring

/-- If the part of a tick ends with the same frame, all windows span the time from the start to the
end of the frame. -/
theorem spans (h : Timed step c start elapsed now whole rest)
    (hnow : c.isPartial = true → now = elapsed) :
    Spans (elapsed - lagTime c step - step * (c.target.distance start : Int)) (whole ++ rest)
      elapsed := by
  refine spans_append.mpr ⟨_, h.whole, ?_⟩
  rw [h.rest]
  split
  · rename_i hpart
    rw [hnow hpart]
    exact ⟨rfl, rfl⟩
  · simp [Spans, lagTime, *]

end Timed

variable [Host H Rat] {s : Prediction Rat φ} {c : Scene Rat φ H}
  {body : Scene Rat φ H → Except Fault (Scene Rat φ H)}

/-- A burst is timed by the time step that its bodies find. -/
theorem exists_timed (hs : s.Sound) (hc : c.world.confirmed.tick.OnCircle) {start : Tick}
    (hroute : Route c.world.confirmed.target (start :: near)) {found : List (Scene Rat φ H)}
    {r : Prediction Rat φ × Scene Rat φ H}
    (hcourse : Course body (s.entered c start near, c.entered start) found r) (hfound : found ≠ [])
    (hstep : ∀ x ∈ found, x.world.config.step = c.world.config.step) :
    ∃ whole rest now, (found.filterMap Scene.invocation?).map Invocation.window = whole ++ rest ∧
      whole ++ rest ≠ [] ∧ (∀ x, found.getLast? = some x → x.world.frame.elapsed = now) ∧
      Timed c.world.config.step c.world.confirmed start c.world.frame.elapsed now whole rest := by
  obtain ⟨whole, rest, is, s₁, c₁, rfl, hinv, hreplay, hrest, -⟩ :=
    hcourse.exists_replay (P := fun config => config.step = c.world.config.step)
      (hs.onRoute_near hc hroute) hstep
  have hspans : Spans (baselineOf c.world.confirmed c.world.config.step c.world.frame.elapsed -
      c.world.config.step * (c.world.confirmed.target.distance start : Int))
      (is.map Invocation.window)
      (baselineOf c.world.confirmed c.world.config.step c.world.frame.elapsed) := hreplay.spans
  rw [baselineOf_eq] at hspans
  obtain ⟨-, hconfirmed, hdone, -⟩ := hreplay.frame_entered
  have hwhole : whole.filterMap Scene.invocation? = is := filterMap_of_map_eq hinv
  have hlength : whole.length = is.length := by simpa using congrArg List.length hinv
  rcases hrest.of_arrived hreplay.arrives.ahead hdone with ⟨hpart, rfl, -⟩ | ⟨hpart, rfl, -, -⟩
  · rw [hconfirmed] at hpart
    refine ⟨is.map Invocation.window, [], ((whole ++ []).getLast hfound).world.frame.elapsed, ?_,
      ?_, fun x hx => ?_, hspans, by simp [hpart]⟩
    · rw [List.filterMap_append, hwhole]
      simp
    · simpa [← List.length_eq_zero_iff, hlength] using hfound
    · rw [List.getLast?_eq_some_getLast hfound] at hx
      rw [Option.some.inj hx]
  · rw [hconfirmed] at hpart
    have htime : c₁.world.config.step = c.world.config.step :=
      hstep (c₁.opened (s₁.trailing c₁) c₁.ghosts.enableAll) (by simp)
    refine ⟨is.map Invocation.window, [(s₁.trailing c₁).window], c₁.world.frame.elapsed, ?_,
      by simp, fun x hx => ?_, hspans, ?_⟩
    · rw [List.filterMap_append, hwhole, List.map_append]
      rfl
    · rw [List.getLast?_concat] at hx
      rw [← Option.some.inj hx]
      rfl
    · rw [if_pos hpart, lagTime, if_pos hpart, ← htime, ← hconfirmed]
      rfl

variable [LawfulFraction φ]

/-- The windows of a burst near its confirmed tick tile the time that it replays, if its bodies find
the time step as it was. Together they take the ticks from the oldest replay point to the target,
and the part of a tick that is under way. Those of whole ticks follow one another up to the target,
and so do all of them, up to the end of the frame, unless a part of a tick is under way and its body
finds another frame than the burst was set up in. With a quiet body every frame returns. -/
theorem windows_tile_time (body : Scene Rat φ H → Except Fault (Scene Rat φ H)) (hs : s.Sound)
    (hb : c.world.confirmed.Built) (hn : s.Close c) :
    (Quiet body → ∃ turn, run (.idle s) c body = .ok turn) ∧
      ∀ turn, run (.idle s) c body = .ok turn → turn.found ≠ [] →
        (∀ x ∈ turn.found, x.world.config.step = c.world.config.step) →
        ∃ start whole rest now, IsOldest c.world.confirmed.tick (s.pointsOf c) start ∧
          turn.invocations.map Invocation.window = whole ++ rest ∧
          duration (whole ++ rest) =
            c.world.config.step * (c.world.confirmed.target.distance start : Int) +
              lagTime c.world.confirmed c.world.config.step ∧
          (∀ x, turn.found.getLast? = some x → x.world.frame.elapsed = now) ∧
          Timed c.world.config.step c.world.confirmed start c.world.frame.elapsed now whole rest ∧
          ((c.world.confirmed.isPartial = true → now = c.world.frame.elapsed) →
            (whole ++ rest).IsChain (fun v w => w.elapsed - w.delta = v.elapsed) ∧
            (whole ++ rest).getLast?.map Window.elapsed = some c.world.frame.elapsed) := by
  refine ⟨fun hq => exists_turn hq hs hb hn, fun turn hrun hfound hstep => ?_⟩
  obtain ⟨oldest, start, near, r, s', hc, hplan, hroute, -, hcourse, -⟩ :=
    exists_course hs hb hn hrun hfound
  obtain ⟨whole, rest, now, hwindows, hne, hnow, h⟩ :=
    exists_timed hs hc hroute hcourse hfound hstep
  refine ⟨start, whole, rest, now, hplan.isOldest_start hs hc, hwindows, h.duration_eq, hnow, h,
    fun hframe => ?_⟩
  have hspans := h.spans hframe
  refine ⟨hspans.isChain, ?_⟩
  rw [List.getLast?_eq_some_getLast hne, Option.map_some, hspans.getLast hne]

/-- Four invocations take three ticks and a half, up to the end of the frame in which half of tick
`11` is confirmed. -/
theorem windows_tile_time_halfway :
    let s : Prediction Rat Rat := initial.recorded [ofIndex 7] [ofIndex 9]
    let c : Scene Rat Rat (TallyHost Rat) :=
      ⟨World.halfway, Ghosts.empty.spawn (EntityId.handedOut 0)⟩
    ∃ turn start whole rest, run (.idle s) c .ok = .ok turn ∧ turn.count = 4 ∧
      IsOldest (ofIndex 11) (s.pointsOf c) start ∧
      turn.invocations.map Invocation.window = whole ++ rest ∧
      duration (whole ++ rest) =
        1 / 60 * ((ofIndex 10).distance start : Int) + 1 / 60 * (1 / 2) ∧
      (whole ++ rest).IsChain (fun v w => w.elapsed - w.delta = v.elapsed) ∧
      (whole ++ rest).getLast?.map Window.elapsed = some (1 / 60) := by
  intro s c
  have hs : s.Sound := sound_recorded_ofIndex [7] [9]
  have hb : c.world.confirmed.Built := .inProgress (Or.inr (OnCircle.ofIndex 11)) (1 / 2)
  have hn : s.Close c := ⟨by decide, by decide⟩
  have hclock : c.world.frame.elapsed = 1 / 60 := zero_add _
  have htarget : c.world.confirmed.target = ofIndex 10 := by decide +kernel
  have hlag : lagTime c.world.confirmed c.world.config.step = 1 / 60 * (1 / 2) := by decide +kernel
  have hpoints : s.ListsPoints c (ofIndex 7) [ofIndex 7, ofIndex 8, ofIndex 10] := by decide +kernel
  have hentry := hpoints.goesBy hs (OnCircle.ofIndex 11) (by decide)
  obtain ⟨hreturns, htile⟩ := windows_tile_time .ok hs hb hn
  obtain ⟨turn, hrun⟩ := hreturns fun c => ⟨c, rfl, rfl, rfl⟩
  have hfinds : (run (.idle s) c .ok).toOption.map
      (·.found.map fun x => (x.world.config.step, x.world.frame.elapsed)) =
        some (List.replicate 4 (1 / 60, 1 / 60)) := by
    rw [hentry.run_eq_guided]
    decide +kernel
  rw [hrun] at hfinds
  have hfinds : turn.found.map (fun x => (x.world.config.step, x.world.frame.elapsed)) =
      List.replicate 4 (1 / 60, 1 / 60) := Option.some.inj hfinds
  have hcount : turn.count = 4 := by
    simpa [Bracket.Turn.count] using congrArg List.length hfinds
  have hsame : ∀ x ∈ turn.found,
      (x.world.config.step, x.world.frame.elapsed) = ((1 / 60 : Rat), (1 / 60 : Rat)) :=
    fun x hx => List.eq_of_mem_replicate (hfinds ▸ List.mem_map.mpr ⟨x, hx, rfl⟩)
  have hfound : turn.found ≠ [] := by
    rintro hnil
    simp [Bracket.Turn.count, hnil] at hcount
  obtain ⟨start, whole, rest, now, hold, hwindows, hsum, hnow, -, hframe⟩ :=
    htile turn hrun hfound fun x hx => congrArg Prod.fst (hsame x hx)
  have hlast := hnow _ (List.getLast?_eq_some_getLast hfound)
  have helapsed := congrArg Prod.snd (hsame _ (List.getLast_mem hfound))
  obtain ⟨hchain, hend⟩ := hframe fun _ => hlast.symm.trans (helapsed.trans hclock.symm)
  rw [htarget, hlag] at hsum
  rw [hclock] at hend
  exact ⟨turn, start, whole, rest, hrun, hcount, hold, hwindows, hsum, hchain, hend⟩

/-- The same burst with bodies that begin a frame each. The time step stays as it is, but the window
for the part of a tick ends with the frame that its body finds, three frames later. It does not
begin where the window before it ended. -/
theorem windows_apart_across_frames :
    let s : Prediction Rat Rat := initial.recorded [ofIndex 7] [ofIndex 9]
    let c : Scene Rat Rat (TallyHost Rat) :=
      ⟨World.halfway, Ghosts.empty.spawn (EntityId.handedOut 0)⟩
    s.Sound ∧ c.world.confirmed.Built ∧ s.Close c ∧
      ∃ turn, run (.idle s) c (fun x => .ok { x with world := x.world.beginFrame (1 / 60) }) =
          .ok turn ∧
        (∀ x ∈ turn.found, x.world.config.step = c.world.config.step) ∧
        ¬(turn.invocations.map Invocation.window).IsChain
          (fun v w => w.elapsed - w.delta = v.elapsed) ∧
        (turn.invocations.map Invocation.window).getLast?.map Window.elapsed ≠
          some c.world.frame.elapsed := by
  intro s c
  have hs : s.Sound := sound_recorded_ofIndex [7] [9]
  refine ⟨hs, .inProgress (Or.inr (OnCircle.ofIndex 11)) (1 / 2), ⟨by decide, by decide⟩, ?_⟩
  have hpoints : s.ListsPoints c (ofIndex 7) [ofIndex 7, ofIndex 8, ofIndex 10] := by decide +kernel
  have hentry := hpoints.goesBy hs (OnCircle.ofIndex 11) (by decide)
  have htold : (run (.idle s) c (fun x => .ok { x with world := x.world.beginFrame (1 / 60) })).map
      (fun turn => (turn.found.map (·.world.config.step), turn.invocations.map Invocation.window)) =
        .ok (List.replicate 4 (1 / 60), [⟨-1 / 40, 1 / 60⟩, ⟨-1 / 120, 1 / 60⟩, ⟨1 / 120, 1 / 60⟩,
          ⟨1 / 15, 1 / 120⟩]) := by
    rw [hentry.run_eq_guided]
    decide +kernel
  cases hrun : run (.idle s) c (fun x => .ok { x with world := x.world.beginFrame (1 / 60) }) with
  | error f =>
    rw [hrun] at htold
    cases htold
  | ok turn =>
    rw [hrun] at htold
    obtain ⟨hsteps, hwindows⟩ := Prod.mk.inj (Except.ok.inj htold)
    refine ⟨turn, rfl, fun x hx => ?_, ?_, ?_⟩
    · exact List.eq_of_mem_replicate (hsteps ▸ List.mem_map.mpr ⟨x, hx, rfl⟩)
    · rw [hwindows]
      decide +kernel
    · rw [hwindows]
      decide +kernel

end Prediction

end Metronome
