import Metronome.Arena
import Metronome.Proofs.Prediction.Reachable
import Metronome.Proofs.Visit

/-!
# The drivers of a client commute

In a frame of a client the presentation and the prediction act on one world: both open scopes and
log events, and both write fields of the time record and restore them. If their bodies write
nothing, it does not matter which of the two comes first (`drivers_commute`).

What a driver does is uniform in the host and in the log: with other ones it takes the same steps,
gives the host the same number of scopes to open and close again, and adds the same events
(`Prediction.run_uniform`, `Presentation.run_uniform`). So all that the second driver sees of the
first is the time record. The presentation restores it; the prediction restores the batch size and
clears its flags.

A host is told the windows of its scopes. `WindowBlind` hosts have forgotten a window when its scope
is closed: the host that counts and the host with two arenas are such.
-/

namespace Metronome

variable {τ φ H : Type}

/-! ## Scopes that are closed again -/

/-- A scope that is opened with a window and closed again. -/
def Host.cycle [Host H τ] (host : H) (window : Window τ) : H :=
  let (replaced, host) := Host.acquire (Host.pushWindow host window)
  Host.popWindow (Host.release (Host.complete host) replaced)

/-- Hosts that a scope changes in the same way whatever its window was. -/
class WindowBlind (H : Type) (τ : outParam Type) [Host H τ] where
  /-- The host after a scope. -/
  after : H → H
  cycle_eq : ∀ (host : H) (window : Window τ), Host.cycle host window = after host

instance : WindowBlind (TallyHost τ) τ where
  after h :=
    { h with
      pushed := h.pushed + 1
      popped := h.popped + 1
      lastArena := ⟨h.lastArena.id + 1⟩
      completed := h.completed + 1 }
  cycle_eq _ _ := rfl

instance : WindowBlind (ArenaHost τ) τ where
  after h := { h with arenas := h.arenas.acquire.2.release h.arenas.acquire.1 }
  cycle_eq _ _ := rfl

open WindowBlind

/-! ## Worlds that differ in the host and the log -/

/-- Whose event it is. -/
def Event.driver : Event τ φ → Driver
  | .entered d _ => d
  | .invoked i => i.driver
  | .exited d _ => d
  | .skipped d _ => d

/-- The same world at another time, with another host and another log. -/
def World.under (w : World τ φ H) (time : TimeRecord τ φ) (host : H) (past : List (Event τ φ)) :
    World τ φ H :=
  { w with time, host, past }

variable [Host H τ] [WindowBlind H τ]

/-- The scope of an invocation is closed again at once. -/
theorem World.exitScope_invoke (w : World τ φ H) (i : Invocation τ φ) :
    (w.invoke i).exitScope = .ok (w.under w.time (after w.host) (.invoked i :: w.past)) := by
  rw [← cycle_eq w.host i.window]
  rfl

/-! ## Prediction -/

namespace Prediction

variable [Seconds τ] [Fraction φ] [Clock τ φ] {s s' : Prediction τ φ} {c c' : Scene τ φ H}
  {w : World τ φ H} {g : Ghosts} {x : Bool × Prediction τ φ × Scene τ φ H}

/-- A decision about a frame is uniform in the host and the log. It adds one event, and leaves the
batch size and the flags of the time record. -/
def DecidesUniformly (w : World τ φ H) (x : Bool × Prediction τ φ × Scene τ φ H)
    (decide : World τ φ H → Except Fault (Bool × Prediction τ φ × Scene τ φ H)) : Prop :=
  ∃ e t, e.driver = .prediction ∧ t.flags = w.time.flags ∧ t.batch = w.time.batch ∧
    ∀ host past, decide (w.under w.time host past) =
      .ok (x.1, x.2.1, ⟨w.under t host (e :: past), x.2.2.ghosts⟩)

omit [Seconds τ] [Fraction φ] [Clock τ φ] [Host H τ] [WindowBlind H τ] in
theorem skip_uniform (reason : SkipReason) (s : Prediction τ φ) (w : World τ φ H) (g : Ghosts) :
    DecidesUniformly w (skip reason s ⟨w, g⟩) fun w => .ok (skip reason s ⟨w, g⟩) :=
  ⟨.skipped .prediction reason, w.time, rfl, rfl, rfl, fun _ _ => rfl⟩

omit [Host H τ] [WindowBlind H τ] in
theorem begin_uniform {target oldest : Tick} {fresh : Bool} {ahead : List Tick}
    (h : begin s ⟨w, g⟩ target fresh oldest ahead = .ok x) :
    DecidesUniformly w x fun w => begin s ⟨w, g⟩ target fresh oldest ahead := by
  obtain ⟨n, hn, h⟩ := bind_eq_ok_iff.mp h
  cases h
  refine ⟨.entered .prediction w.confirmed.tick, { w.time with expectedTicks := n }, rfl, rfl, rfl,
    fun host past => ?_⟩
  exact bind_eq_ok_iff.mpr ⟨n, hn, rfl⟩

omit [Host H τ] [WindowBlind H τ] [Seconds τ] [Fraction φ] [Clock τ φ] in
theorem DecidesUniformly.congr {decide decide' : World τ φ H →
      Except Fault (Bool × Prediction τ φ × Scene τ φ H)} (h : DecidesUniformly w x decide)
    (heq : ∀ host past, decide' (w.under w.time host past) = decide (w.under w.time host past)) :
    DecidesUniformly w x decide' := by
  obtain ⟨e, t, he, hflags, hbatch, huniform⟩ := h
  exact ⟨e, t, he, hflags, hbatch, fun host past => (heq host past).trans (huniform host past)⟩

omit [Host H τ] [WindowBlind H τ] in
theorem plan_uniform (h : plan s ⟨w, g⟩ = .ok x) :
    DecidesUniformly w x fun w => plan s ⟨w, g⟩ := by
  simp only [plan, bind_eq_ok_iff] at h
  obtain ⟨target, htarget, ⟨applied, lastFull⟩, hwith, points, hpoints, h⟩ := h
  cases points with
  | none =>
    cases h
    refine (skip_uniform _ _ w g).congr fun host past => ?_
    simp only [plan, World.under, htarget, hwith, hpoints, ok_bind]
    rfl
  | some points =>
    obtain ⟨age, hage, h⟩ := bind_eq_ok_iff.mp h
    cases points with
    | nil =>
      by_cases hpartial : w.confirmed.isPartial = true
      · simp only [hpartial, if_true] at h
        cases h
      · simp only [hpartial, Bool.false_eq_true, if_false] at h
        cases h
        refine (skip_uniform _ _ w g).congr fun host past => ?_
        simp only [plan, World.under, htarget, hwith, hpoints, hage, ok_bind, hpartial,
          Bool.false_eq_true, if_false]
        rfl
    | cons oldest ahead =>
      by_cases hnone : (ahead.isEmpty && !w.confirmed.isPartial) = true
      · simp only [hnone, if_true] at h
        cases h
        refine (skip_uniform _ _ w g).congr fun host past => ?_
        simp only [plan, World.under, htarget, hwith, hpoints, hage, ok_bind, hnone, if_true]
        rfl
      · simp only [hnone, Bool.false_eq_true, if_false] at h
        refine (begin_uniform h).congr fun host past => ?_
        simp only [plan, World.under, htarget, hwith, hpoints, hage, ok_bind, hnone,
          Bool.false_eq_true, if_false]
        rfl

omit [Host H τ] [WindowBlind H τ] in
theorem wantsEntry_uniform (h : wantsEntry (s, ⟨w, g⟩) = .ok x) :
    DecidesUniformly w x fun w => wantsEntry (s, ⟨w, g⟩) := by
  by_cases hv : (!w.confirmed.isValid) = true
  · simp only [wantsEntry, hv, if_true] at h
    cases h
    refine (skip_uniform _ _ w g).congr fun host past => ?_
    simp only [wantsEntry, World.under, hv, if_true]
  by_cases hg : (!g.isEmpty) = true
  · simp only [wantsEntry, hv, hg, Bool.false_eq_true, if_true, if_false] at h
    refine (plan_uniform h).congr fun host past => ?_
    simp only [wantsEntry, World.under, hv, hg, Bool.false_eq_true, if_true, if_false]
  by_cases hneeds : w.config.requireGhost = true
  · simp only [wantsEntry, hv, hg, hneeds, Bool.false_eq_true, if_true, if_false] at h
    cases h
    refine (skip_uniform _ _ w g).congr fun host past => ?_
    simp only [wantsEntry, World.under, hv, hg, hneeds, Bool.false_eq_true, if_true, if_false]
  · simp only [wantsEntry, hv, hg, hneeds, Bool.false_eq_true, if_false] at h
    refine (plan_uniform h).congr fun host past => ?_
    simp only [wantsEntry, World.under, hv, hg, hneeds, Bool.false_eq_true, if_false]

/-! ### Steps -/

omit [Host H τ] [WindowBlind H τ] in
/-- A leg writes flags of the burst only. -/
theorem flags_of_nextLeg {s₁ : Prediction τ φ} {ghosts : Ghosts} {leg : Leg τ φ}
    (h : nextLeg s c = .ok (s₁, ghosts, leg)) :
    leg.flags.remove StepFlags.burstMask = c.world.time.flags.remove StepFlags.burstMask := by
  unfold nextLeg at h
  split at h
  · simp only [batchLeg, bind_eq_ok_iff, pure_eq_ok, Except.ok.injEq] at h
    obtain ⟨b, -, firstTime, -, _, -, _, -, heq⟩ := h
    cases heq
    rw [batchFlags, StepFlags.remove_set_of_mem (by decide),
      StepFlags.remove_set_of_mem (by decide), StepFlags.remove_set_of_mem (by decide)]
  · cases h
    show (partialFlags c.world.time.flags).remove StepFlags.burstMask = _
    rw [partialFlags, StepFlags.remove_remove_of_mem (by decide),
      StepFlags.remove_insert_of_mem (by decide)]

omit [WindowBlind H τ] in
/-- A step is uniform in the host and the log. -/
theorem step_uniform {s₁ : Prediction τ φ} {c₁ : Scene τ φ H}
    (h : step (s, c) = .ok (s₁, c₁)) :
    ∃ i g, i.driver = .prediction ∧ s₁.savedBatch = s.savedBatch ∧
      i.flags.remove StepFlags.burstMask = c.world.time.flags.remove StepFlags.burstMask ∧
      c₁ = c.opened i g ∧
      ∀ host past, step (s, ⟨c.world.under c.world.time host past, c.ghosts⟩) =
        .ok (s₁, (⟨c.world.under c.world.time host past, c.ghosts⟩ : Scene τ φ H).opened i g) := by
  obtain ⟨s₀, g, leg, hleg⟩ := exists_nextLeg h
  have hsaved : s₀.savedBatch = s.savedBatch :=
    (congrArg savedBatch (frame_of_nextLeg hleg) :)
  obtain ⟨hfits, rfl, rfl⟩ := (step_eq_ok_iff hleg).mp h
  refine ⟨_, g, rfl, hsaved, ?_, rfl, fun host past => ?_⟩
  · rw [← flags_of_nextLeg hleg]
    exact StepFlags.remove_set_of_mem (by decide) _
  · have hunder : nextLeg s ⟨c.world.under c.world.time host past, c.ghosts⟩ = .ok (s₀, g, leg) :=
      hleg
    exact (step_eq_ok_iff hunder).mpr
      ⟨⟨hfits.invocations, hfits.predictedIndex, hfits.finals⟩, rfl, rfl⟩

omit [Seconds τ] [Fraction φ] [Clock τ φ] in
theorem exitScope_opened (c : Scene τ φ H) (i : Invocation τ φ) (g : Ghosts) :
    (c.opened i g).world.exitScope = .ok (c.world.under (c.opened i g).world.time
      (after c.world.host) (.invoked i :: c.world.past)) :=
  World.exitScope_invoke _ i

/-! ### Bursts -/

/-- A course whose bodies write nothing is uniform in the host and the log. -/
theorem Course.uniform {x r : Prediction τ φ × Scene τ φ H} {found : List (Scene τ φ H)}
    (h : Course .ok x found r) : ∃ es : List (Event τ φ), (∀ e ∈ es, e.driver = .prediction) ∧
      r.1.savedBatch = x.1.savedBatch ∧
      r.2.world.time.flags.remove StepFlags.burstMask =
        x.2.world.time.flags.remove StepFlags.burstMask ∧
      ∀ host past, ∃ found', found'.length = found.length ∧
        Course .ok (x.1, ⟨x.2.world.under x.2.world.time host past, x.2.ghosts⟩) found'
          (r.1, ⟨x.2.world.under r.2.world.time (after^[found.length] host) (es ++ past),
            r.2.ghosts⟩) := by
  induction h with
  | done hends =>
    exact ⟨[], by simp, rfl, rfl, fun host past => ⟨[], rfl, .done hends⟩⟩
  | @leg s s₁ c c₁ c₂ w found r hmore hstep hbody hexit _ ih =>
    obtain ⟨es, hdrivers, hsaved, hflags, hcourse⟩ := ih
    obtain ⟨i, g, hdriver, hkept, htold, rfl, hsteps⟩ := step_uniform hstep
    cases hbody
    cases (exitScope_opened c i g).symm.trans hexit
    refine ⟨es ++ [.invoked i], ?_, hsaved.trans hkept, hflags.trans htold, fun host past => ?_⟩
    · intro e he
      rcases List.mem_append.mp he with he | he
      · exact hdrivers e he
      · exact List.mem_singleton.mp he ▸ hdriver
    · obtain ⟨found', hlength, hrest⟩ := hcourse (after host) (.invoked i :: past)
      refine ⟨_ :: found', by rw [List.length_cons, hlength, List.length_cons],
        .leg hmore (hsteps host past) rfl (exitScope_opened _ i g) ?_⟩
      rw [List.append_assoc]
      exact hrest

omit [Seconds τ] [Clock τ φ] [Host H τ] [WindowBlind H τ] in
/-- The end of a burst is uniform in the host and the log. -/
theorem settle_uniform {r y : Prediction τ φ × Scene τ φ H} (h : settle r = .ok y) :
    ∃ e, e.driver = .prediction ∧ y.2.world.time.batch = r.1.savedBatch ∧
      y.2.world.time.flags = r.2.world.time.flags.remove StepFlags.burstMask ∧
      ∀ (w : World τ φ H) host past, settle (r.1, ⟨w.under r.2.world.time host past, r.2.ghosts⟩) =
        .ok (y.1, ⟨w.under y.2.world.time host (e :: past), y.2.ghosts⟩) := by
  obtain ⟨htick, hfraction, hfinals, rfl⟩ := settle_eq_ok_iff.mp h
  exact ⟨.exited .prediction r.1.invocations, rfl, rfl, rfl, fun w host past =>
    settle_eq_ok_iff.mpr ⟨htick, hfraction, hfinals, rfl⟩⟩

/-- What a frame of the prediction comes to, uniform in the host and the log: it adds events of its
own, opens a scope for each invocation, and restores the batch size and the flags. -/
structure Uniform (s : Prediction τ φ) (w : World τ φ H) (g : Ghosts)
    (turn : Bracket.Turn (Prediction τ φ) (Scene τ φ H)) (t : TimeRecord τ φ)
    (es : List (Event τ φ)) : Prop where
  drivers : ∀ e ∈ es, e.driver = .prediction
  batch : t.batch = w.time.batch
  flags : w.time.flags.bits &&& StepFlags.burstMask = 0 → t.flags = w.time.flags
  runs : ∀ host past, ∃ found, found.length = turn.count ∧
    run (.idle s) ⟨w.under w.time host past, g⟩ .ok = .ok ⟨turn.driver,
      ⟨w.under t (after^[turn.count] host) (es ++ past), turn.context.ghosts⟩, found⟩

theorem run_uniform {turn : Bracket.Turn (Prediction τ φ) (Scene τ φ H)}
    (hrun : run (.idle s) ⟨w, g⟩ .ok = .ok turn) : ∃ t es, Uniform s w g turn t es := by
  cases run_eq_ok_iff.mp hrun with
  | @skipped s' c' hdeclines =>
    obtain ⟨e, t, hdriver, hflags, hbatch, huniform⟩ := wantsEntry_uniform hdeclines
    refine ⟨t, [e], by simpa using hdriver, hbatch, fun _ => hflags, fun host past => ?_⟩
    exact ⟨[], rfl, run_eq_ok_iff.mpr (.skipped (huniform host past))⟩
  | @burst s₀ s' c₀ c' found r henters hcourse hsettles hfits =>
    obtain ⟨e, t, hdriver, hflags, hbatch, huniform⟩ := wantsEntry_uniform henters
    obtain ⟨w₀, g₀⟩ := c₀
    cases henters.symm.trans (huniform w.host w.past)
    obtain ⟨es, hdrivers, hsaved, hkept, hcourses⟩ := hcourse.uniform
    obtain ⟨e', hdriver', hrestored, hcleared, hsettle⟩ := settle_uniform hsettles
    refine ⟨c'.world.time, e' :: (es ++ [e]), ?_, ?_, fun hclear => ?_, fun host past => ?_⟩
    · intro d hd
      simp only [List.mem_cons, List.mem_append, List.not_mem_nil, or_false] at hd
      rcases hd with rfl | hd | rfl
      · exact hdriver'
      · exact hdrivers d hd
      · exact hdriver
    · exact hrestored.trans (hsaved.trans hbatch)
    · have hburst : (t.flags.insert StepFlags.inLoop).remove StepFlags.burstMask =
          t.flags.remove StepFlags.burstMask := StepFlags.remove_insert_of_mem (by decide)
      rw [hcleared, hkept]
      show (t.flags.insert StepFlags.inLoop).remove StepFlags.burstMask = _
      rw [hburst, hflags, StepFlags.remove_eq_self hclear]
    · obtain ⟨found', hlength, hcourse'⟩ := hcourses host (e :: past)
      refine ⟨found', hlength, run_eq_ok_iff.mpr (.burst (huniform host past) hcourse' ?_ ?_)⟩
      · have hlog : e' :: (es ++ [e]) ++ past = e' :: (es ++ e :: past) := by simp
        rw [hlog]
        exact hsettle _ _ _
      · rw [hlength]
        exact hfits

end Prediction

/-! ## Presentation -/

namespace Presentation

variable [Seconds τ] [Fraction φ] [Clock τ φ] {s : Presentation τ φ} {w : World τ φ H}

/-- What a presented frame comes to, uniform in the host and the log, and in all of the time record
but its flags and its batch size: it adds events of its own, opens a scope if it runs, and restores
the time record. -/
structure Uniform (s : Presentation τ φ) (w : World τ φ H) (driver : Bracket (Presentation τ φ))
    (n : Nat) (es : List (Event τ φ)) : Prop where
  drivers : ∀ e ∈ es, e.driver = .presentation
  runs : ∀ t host past, t.flags = w.time.flags → t.batch = w.time.batch →
    ∃ found, found.length = n ∧ run (.idle s) (w.under t host past) .ok =
      .ok ⟨driver, w.under t (after^[n] host) (es ++ past), found⟩

theorem exists_uniform (s : Presentation τ φ) (hc : w.Shows → w.confirmed.tick.OnCircle) :
    ∃ driver n es, Uniform s w driver n es := by
  obtain ⟨pending, now, hplan⟩ := exists_plan s.previous hc
  have hunder : ∀ t host past, plan s.previous (w.under t host past) = .ok (pending, now) :=
    fun _ _ _ => hplan
  by_cases hpos : 0 < pending.delta
  · let i : Invocation τ φ :=
      { driver := .presentation, tick := pending.tick, fraction := pending.fraction,
        batch := pending.batch, flags := w.time.flags,
        window := ⟨w.frame.elapsed, pending.delta⟩ }
    let s₁ : Presentation τ φ :=
      { s with previous := now, pending, savedBatch := w.time.batch }
    refine ⟨.idle s₁, 1, [.invoked i], by simp [i, Event.driver], ?_⟩
    intro t host past hflags hbatch
    let during := w.under { t with batch := pending.batch } host past
    have henter : hooks.enter ({ s with previous := now, pending }, w.under t host past) =
        .ok (s₁, during.invoke i) := by
      simp only [hooks, enter, during, i, s₁, ← hflags, ← hbatch]
      rfl
    have hleave : hooks.leave (s₁, during.invoke i) =
        .ok (s₁, w.under t (after^[1] host) ([.invoked i] ++ past)) := by
      show leave (s₁, during.invoke i) = _
      simp only [leave, World.exitScope_invoke, ok_bind, s₁, ← hbatch]
      rfl
    exact ⟨_, rfl, Bracket.runIn_once_of_entered (wantsEntry_of_pos (hunder t host past) hpos)
      henter rfl hleave⟩
  · let s₁ : Presentation τ φ :=
      { s with previous := if pending.tick.isValid then s.previous else now }
    refine ⟨.idle s₁, 0, [.skipped .presentation .nonPositiveDelta], by simp [Event.driver], ?_⟩
    intro t host past _ _
    exact ⟨[], rfl, Bracket.runIn_of_declined
      (wantsEntry_of_not_pos (hunder t host past) hpos)⟩

end Presentation

/-! ## Either order -/

/-- The events of two drivers may be logged in either order, as far as each driver is concerned. -/
theorem filter_swap {es es' : List (Event τ φ)} {a b : Driver} (hne : a ≠ b)
    (hes : ∀ e ∈ es, e.driver = a) (hes' : ∀ e ∈ es', e.driver = b) (past : List (Event τ φ))
    (d : Driver) : (es ++ (es' ++ past)).filter (fun e => e.driver = d) =
      (es' ++ (es ++ past)).filter fun e => e.driver = d := by
  have hnone : ∀ {es : List (Event τ φ)} {a : Driver}, (∀ e ∈ es, e.driver = a) → a ≠ d →
      es.filter (fun e => e.driver = d) = [] := by
    intro es a hes had
    refine List.filter_eq_nil_iff.mpr fun e he => ?_
    simpa [hes e he] using had
  simp only [List.filter_append]
  by_cases had : a = d
  · rw [hnone hes' fun hbd => hne (had.trans hbd.symm)]
    rfl
  · rw [hnone hes had]
    rfl

variable [Seconds τ] [Fraction φ] [Clock τ φ] [LawfulFraction φ]

/-- The two drivers of a client commute. In a world without flags of a burst, near its confirmed
tick if there is one, a presented frame and a burst whose bodies write nothing may come in either
order: both return what they return in the other order, and leave the same drivers, entities and
world, host and time record included. In the log the events of each driver are the same. -/
theorem drivers_commute (presentation : Presentation τ φ) {prediction : Prediction τ φ}
    {w : World τ φ H} {ghosts : Ghosts} (hs : prediction.Sound) (hb : w.confirmed.Built)
    (hn : w.confirmed.isValid = true → prediction.Close ⟨w, ghosts⟩)
    (hclear : w.time.flags.bits &&& StepFlags.burstMask = 0) :
    ∃ p q q' p', Presentation.run (.idle presentation) w .ok = .ok p ∧
      Prediction.run (.idle prediction) ⟨p.context, ghosts⟩ .ok = .ok q ∧
      Prediction.run (.idle prediction) ⟨w, ghosts⟩ .ok = .ok q' ∧
      Presentation.run (.idle presentation) q'.context.world .ok = .ok p' ∧
      p'.driver = p.driver ∧ p'.count = p.count ∧ q'.driver = q.driver ∧ q'.count = q.count ∧
      q'.context.ghosts = q.context.ghosts ∧
      p'.context = { q.context.world with past := p'.context.past } ∧
      ∀ d, p'.context.events.filter (fun e => e.driver = d) =
        q.context.world.events.filter fun e => e.driver = d := by
  obtain ⟨turn, hrun⟩ : ∃ turn, Prediction.run (.idle prediction) ⟨w, ghosts⟩ .ok = .ok turn := by
    by_cases hv : w.confirmed.isValid = true
    · exact Prediction.exists_turn (fun c => ⟨c, rfl, rfl, rfl⟩) hs hb (hn hv)
    · exact ⟨_, Prediction.run_of_not_isValid (by simpa using hv) .ok⟩
  obtain ⟨t, es, hburst⟩ := Prediction.run_uniform hrun
  obtain ⟨driver, n, es', hframe⟩ :=
    Presentation.exists_uniform presentation fun h : w.Shows => hb.onCircle h.2
  obtain ⟨shown, hshown, hp⟩ := hframe.runs w.time w.host w.past rfl rfl
  obtain ⟨found, hfound, hq⟩ := hburst.runs (after^[n] w.host) (es' ++ w.past)
  obtain ⟨found', hfound', hq'⟩ := hburst.runs w.host w.past
  obtain ⟨shown', hshown', hp'⟩ := hframe.runs t (after^[turn.count] w.host) (es ++ w.past)
    (hburst.flags hclear) hburst.batch
  have hhost : after^[n] (after^[turn.count] w.host) = after^[turn.count] (after^[n] w.host) :=
    (Function.Commute.refl after).iterate_iterate n turn.count w.host
  refine ⟨_, _, _, _, hp, hq, hq', hp', rfl, hshown'.trans hshown.symm, rfl,
    hfound'.trans hfound.symm, rfl, ?_, fun d => ?_⟩
  · show w.under t _ _ = _
    rw [hhost]
    rfl
  · show (es' ++ (es ++ w.past)).reverse.filter _ = (es ++ (es' ++ w.past)).reverse.filter _
    rw [List.filter_reverse, List.filter_reverse,
      filter_swap Driver.noConfusion hframe.drivers hburst.drivers]

/-- A client in whose first frame half of tick `11` is confirmed. -/
def World.halfway : World Rat Rat (TallyHost Rat) :=
  { (World.start Config.sixty TallyHost.empty).beginFrame (1 / 60) with
    confirmed := Confirmed.inProgress (Tick.ofIndex 11) (1 / 2) }

/-- With state of tick `7` and input of tick `9`, a frame is presented and four invocations replay
up to the middle of tick `11`, or the other way round. -/
theorem drivers_commute_halfway :
    let s : Prediction Rat Rat := Prediction.initial.recorded [Tick.ofIndex 7] [Tick.ofIndex 9]
    let ghosts := Ghosts.empty.spawn (EntityId.handedOut 0)
    ∃ p q q' p', Presentation.run (.idle .start) World.halfway .ok = .ok p ∧
      Prediction.run (.idle s) ⟨p.context, ghosts⟩ .ok = .ok q ∧
      Prediction.run (.idle s) ⟨World.halfway, ghosts⟩ .ok = .ok q' ∧
      Presentation.run (.idle .start) q'.context.world .ok = .ok p' ∧
      p'.count = 1 ∧ q'.count = 4 ∧
      p'.context = { q.context.world with past := p'.context.past } := by
  intro s ghosts
  have hs : s.Sound :=
    Prediction.sound_initial.recorded (by simp [Tick.Regular, Tick.OnCircle.ofIndex])
      (by simp [Tick.Regular, Tick.OnCircle.ofIndex])
  have hb : World.halfway.confirmed.Built := .inProgress (Or.inr (Tick.OnCircle.ofIndex 11)) (1 / 2)
  have hn : s.Close ⟨World.halfway, ghosts⟩ := ⟨by decide, by decide⟩
  obtain ⟨p, q, q', p', hp, hq, hq', hp', -, hpcount, -, hqcount, -, hworld, -⟩ :=
    drivers_commute .start hs hb (fun _ => hn) (by decide)
  have hshown : (Presentation.run (.idle .start) World.halfway .ok).toOption.map (·.count) =
      some 1 := by decide +kernel
  have hpoints : s.ListsPoints ⟨World.halfway, ghosts⟩ (Tick.ofIndex 7)
      [Tick.ofIndex 7, Tick.ofIndex 8, Tick.ofIndex 10] := by decide +kernel
  have hentry := hpoints.goesBy hs (Tick.OnCircle.ofIndex 11) (by decide)
  have hburst : (Prediction.run (.idle s) ⟨World.halfway, ghosts⟩ .ok).toOption.map (·.count) =
      some 4 := by
    rw [hentry.run_eq_guided]
    decide +kernel
  rw [hp] at hshown
  rw [hq'] at hburst
  exact ⟨p, q, q', p', hp, hq, hq', hp', hpcount.trans (Option.some.inj hshown),
    Option.some.inj hburst, hworld⟩

end Metronome
