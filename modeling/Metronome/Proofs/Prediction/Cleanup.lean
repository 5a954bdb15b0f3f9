import Metronome.Proofs.Commute

/-!
# What a burst leaves behind

A burst writes to what it shares with the other drivers: to the time record at its start, at each
step and at its end, to the predicted entities, and to the ticks that were recorded for it. Most of
this is temporary. What is left after a burst whose bodies write nothing is `Clean`: the time record
is at the confirmed tick and has its batch size and its other flags back, every entity takes part,
and nothing but the counts of the burst and the time of its last invocation tells of it
(`burst_leaves_clean`).

Between the invocations a world keeps all but a few fields (`World.Keeps`); each step adds one
invocation to what has passed (`Passed.step`), and a course is a sequence of steps.
-/

namespace Metronome

open Tick

variable {τ φ H : Type}

/-- A world in which invocations were opened and closed again: nothing is different but the host,
the log, and the part of the time record that tells of the invocations. -/
structure World.Keeps (w w' : World τ φ H) : Prop where
  config : w'.config = w.config
  frame : w'.frame = w.frame
  confirmed : w'.confirmed = w.confirmed
  inGame : w'.inGame = w.inGame
  scopes : w'.scopes = w.scopes
  shownTick : w'.time.shownTick = w.time.shownTick
  shownFraction : w'.time.shownFraction = w.time.shownFraction
  inputLatency : w'.time.inputLatency = w.time.inputLatency

theorem World.Keeps.trans {w₁ w₂ w₃ : World τ φ H} (h : w₁.Keeps w₂) (h' : w₂.Keeps w₃) :
    w₁.Keeps w₃ where
  config := h'.config.trans h.config
  frame := h'.frame.trans h.frame
  confirmed := h'.confirmed.trans h.confirmed
  inGame := h'.inGame.trans h.inGame
  scopes := h'.scopes.trans h.scopes
  shownTick := h'.shownTick.trans h.shownTick
  shownFraction := h'.shownFraction.trans h.shownFraction
  inputLatency := h'.inputLatency.trans h.inputLatency

/-- A scene that was opened with an invocation and closed again. -/
theorem Scene.keeps_opened [Host H τ] {c : Scene τ φ H} {i : Invocation τ φ} {ghosts : Ghosts}
    {w : World τ φ H} (h : (c.opened i ghosts).world.exitScope = .ok w) :
    c.world.Keeps w ∧ w.time = (c.opened i ghosts).world.time := by
  have hframe := World.exitScope_frame h
  -- the scope that is closed is the one of the invocation
  have hscopes : w.scopes = c.world.scopes := by
    cases h
    rfl
  refine ⟨?_, (congrArg World.time hframe :)⟩
  constructor
  case scopes => exact hscopes
  all_goals
    rw [hframe]
    rfl

namespace Prediction

variable [Seconds τ] [Fraction φ] [Clock τ φ] [Host H τ]

/-! ## Invocations that have passed -/

/-- A burst and its scene after some invocations. -/
structure Passed (x : Prediction τ φ × Scene τ φ H) (is : List (Invocation τ φ))
    (r : Prediction τ φ × Scene τ φ H) : Prop where
  keeps : x.2.world.Keeps r.2.world
  confirmed : r.1.confirmed = x.1.confirmed
  savedBatch : r.1.savedBatch = x.1.savedBatch
  flags : r.2.world.time.flags.remove StepFlags.burstMask =
    x.2.world.time.flags.remove StepFlags.burstMask
  predictedIndex : r.2.world.time.predictedIndex.toNat =
    x.2.world.time.predictedIndex.toNat + is.length
  elapsed : r.2.world.time.elapsed =
    (is.getLast?.map fun i => i.window.elapsed).getD x.2.world.time.elapsed

omit [Seconds τ] [Fraction φ] [Clock τ φ] [Host H τ] in
theorem Passed.refl (x : Prediction τ φ × Scene τ φ H) : Passed x [] x :=
  ⟨⟨rfl, rfl, rfl, rfl, rfl, rfl, rfl, rfl⟩, rfl, rfl, rfl, rfl, rfl⟩

/-- A step and the end of its scope are one more invocation in front. -/
theorem Passed.step {s s₁ : Prediction τ φ} {c c₁ : Scene τ φ H} {w : World τ φ H}
    {is : List (Invocation τ φ)} {r : Prediction τ φ × Scene τ φ H}
    (hstep : Prediction.step (s, c) = .ok (s₁, c₁)) (hexit : c₁.world.exitScope = .ok w)
    (h : Passed (s₁, { c₁ with world := w }) is r) :
    ∃ i, c₁.invocation? = some i ∧ Passed (s, c) (i :: is) r := by
  obtain ⟨s₀, ghosts, leg, hleg⟩ := exists_nextLeg hstep
  have hframe := frame_of_nextLeg hleg
  have hflags := flags_of_nextLeg hleg
  obtain ⟨hfits, rfl, rfl⟩ := (step_eq_ok_iff hleg).mp hstep
  obtain ⟨hkeeps, htime⟩ := Scene.keeps_opened hexit
  refine ⟨_, Scene.invocation?_opened c _ ghosts, ?_⟩
  constructor
  case keeps => exact hkeeps.trans h.keeps
  case confirmed =>
    exact h.confirmed.trans (congrArg Prediction.confirmed hframe :)
  case savedBatch =>
    exact h.savedBatch.trans (congrArg Prediction.savedBatch hframe :)
  case flags =>
    rw [h.flags, ← hflags]
    show w.time.flags.remove _ = _
    rw [htime]
    exact StepFlags.remove_set_of_mem (by decide) _
  case predictedIndex =>
    have hindex : w.time.predictedIndex = c.world.time.predictedIndex + 1 := by
      rw [htime]
      rfl
    rw [h.predictedIndex, List.length_cons, hindex, toNat_add_one hfits.predictedIndex]
    dsimp only
    omega
  case elapsed =>
    have helapsed : w.time.elapsed = leg.window.elapsed := by
      rw [htime]
      rfl
    rw [h.elapsed, List.getLast?_cons, Option.map_some, Option.getD_some, helapsed]
    exact Option.getD_map (fun i : Invocation τ φ => i.window.elapsed)
      (leg.invocation (s.invocations == 0)) is.getLast?

/-- The invocations of a course whose bodies write nothing have passed at its end. -/
theorem Course.passed {x r : Prediction τ φ × Scene τ φ H} {found : List (Scene τ φ H)}
    (h : Course .ok x found r) :
    Passed x (found.filterMap Scene.invocation?) r ∧
      (found.filterMap Scene.invocation?).length = found.length := by
  induction h with
  | done => exact ⟨.refl _, rfl⟩
  | leg _ hstep hbody hexit _ ih =>
    cases hbody
    obtain ⟨i, hinv, hpassed⟩ := Passed.step hstep hexit ih.1
    rw [List.filterMap_cons_some hinv]
    exact ⟨hpassed, by rw [List.length_cons, List.length_cons, ih.2]⟩

/-! ## After a burst -/

/-- What a burst of `n` invocations, the last of them `i`, leaves of a scene. -/
structure Clean (c : Scene τ φ H) (i : Invocation τ φ) (n : Nat) (c' : Scene τ φ H) : Prop where
  serverTick : c'.world.time.serverTick = c.world.confirmed.tick
  serverFraction : c'.world.time.serverFraction = c.world.confirmed.fraction
  batch : c'.world.time.batch = c.world.time.batch
  flags : c'.world.time.flags = c.world.time.flags.remove StepFlags.burstMask
  elapsed : c'.world.time.elapsed = i.window.elapsed
  predictedIndex : c'.world.time.predictedIndex.toNat = n
  keeps : c.world.Keeps c'.world
  ghosts : c'.ghosts = c.ghosts.enableAll

variable {s s' : Prediction τ φ} {c c' : Scene τ φ H}

omit [Host H τ] in
/-- A burst that settles after its invocations is clean. -/
theorem Passed.clean {start : Tick} {ahead : List Tick} {is : List (Invocation τ φ)}
    {r : Prediction τ φ × Scene τ φ H} {i : Invocation τ φ}
    (h : Passed (s.entered c start ahead, c.entered start) is r) (hlast : is.getLast? = some i)
    (hsettles : settle r = .ok (s', c')) (hghosts : c'.ghosts = c.ghosts.enableAll) :
    Clean c i is.length c' := by
  obtain ⟨-, -, -, hy⟩ := settle_eq_ok_iff.mp hsettles
  obtain ⟨-, rfl⟩ := Prod.mk.inj hy
  have hbegan : c.world.Keeps (c.entered start).world := ⟨rfl, rfl, rfl, rfl, rfl, rfl, rfl, rfl⟩
  have hkeeps : c.world.Keeps r.2.world := hbegan.trans h.keeps
  constructor
  case serverTick => exact congrArg Confirmed.tick h.confirmed
  case serverFraction => exact congrArg Confirmed.fraction h.confirmed
  case batch => exact h.savedBatch
  case flags =>
    refine h.flags.trans ?_
    show (c.world.time.flags.insert StepFlags.inLoop).remove StepFlags.burstMask = _
    exact StepFlags.remove_insert_of_mem (by decide)
  case elapsed =>
    refine h.elapsed.trans ?_
    rw [hlast]
    rfl
  case predictedIndex => exact h.predictedIndex.trans (Nat.zero_add _)
  case keeps => exact hkeeps.trans ⟨rfl, rfl, rfl, rfl, rfl, rfl, rfl, rfl⟩
  case ghosts => exact hghosts

/-- With bodies that write nothing every frame of the prediction returns, and if a burst runs, what
it leaves is clean: the time record at the confirmed tick with its batch size and the flags of
others restored, and with the count and the end of the invocations; the rest of the record, the
settings, the frame and the scopes as they were; every entity taking part, with its state as it was;
and no tick recorded any more. -/
theorem burst_leaves_clean [LawfulFraction φ] (hs : s.Sound) (hb : c.world.confirmed.Built)
    (hn : c.world.confirmed.isValid = true → s.Close c) :
    ∃ turn s', run (.idle s) c .ok = .ok turn ∧ turn.driver = .idle s' ∧
      (turn.found ≠ [] → s'.history = History.empty ∧
        ∃ i, turn.invocations.getLast? = some i ∧ Clean c i turn.count turn.context) := by
  obtain ⟨turn, hrun⟩ : ∃ turn, run (.idle s) c .ok = .ok turn := by
    by_cases hv : c.world.confirmed.isValid = true
    · exact exists_turn (fun c => ⟨c, rfl, rfl, rfl⟩) hs hb (hn hv)
    · exact ⟨_, run_of_not_isValid (by simpa using hv) .ok⟩
  obtain ⟨s', hdriver, -⟩ := hs.of_run hb hrun
  refine ⟨turn, s', hrun, hdriver, fun hfound => ?_⟩
  obtain ⟨hv, hg⟩ := of_found_ne_nil hrun hfound
  have hc := hb.onCircle hv
  obtain ⟨-, start, near, -, hroute, hentry⟩ := exists_near_entry hs hc hg ((hn hv).noneFar hc)
  have hmore := (found_ne_nil_iff hs hc hroute hentry hrun).mp hfound
  obtain ⟨r, s₁, hcourse, hsettles, hdriver₁, -⟩ := (hentry.run_eq_ok_iff hmore).mp hrun
  have hspares : Spares (.ok : Scene τ φ H → Except Fault (Scene τ φ H)) := by
    rintro c _ ⟨⟩
    rfl
  rcases run_scenes (keeps_true _) trivial hs hc hroute hentry hrun with
    ⟨-, -, rfl⟩ | ⟨-, _, _, _, s₂, _, -, -, -, hdriver₂, -, hempty, hghosts⟩
  · exact absurd rfl hfound
  obtain rfl : s' = s₂ := by
    rw [hdriver] at hdriver₂
    cases hdriver₂
    rfl
  obtain ⟨hpassed, hlength⟩ := hcourse.passed
  have hne : turn.found.filterMap Scene.invocation? ≠ [] := by
    rwa [← List.length_pos_iff, hlength, List.length_pos_iff]
  refine ⟨hempty, _, List.getLast?_eq_some_getLast hne, ?_⟩
  have hclean := hpassed.clean (List.getLast?_eq_some_getLast hne) hsettles (hghosts hspares).2.2
  rwa [hlength] at hclean

/-- The client of the halfway world, with more ticks per batch than one and with all bits of the
flags set that can be. -/
def flagged : Scene Rat Rat (TallyHost Rat) where
  world := { World.halfway with time := { World.halfway.time with flags := ⟨255⟩, batch := 5 } }
  ghosts := Ghosts.empty.spawn (EntityId.handedOut 0)

/-- Four invocations leave the three other bits, the batch size and an end at the middle of tick
`11`. -/
theorem burst_leaves_clean_flagged :
    ∃ turn s', run (.idle (initial.recorded [ofIndex 7] [ofIndex 9])) flagged .ok = .ok turn ∧
      turn.driver = .idle s' ∧ turn.count = 4 ∧ s'.history = History.empty ∧
      turn.context.world.time.flags = ⟨224⟩ ∧ turn.context.world.time.batch = 5 ∧
      turn.context.world.time.predictedIndex.toNat = 4 ∧
      turn.context.world.time.serverTick = ofIndex 11 ∧
      turn.context.ghosts = flagged.ghosts.enableAll := by
  have hs : (initial.recorded [ofIndex 7] [ofIndex 9] : Prediction Rat Rat).Sound :=
    sound_initial.recorded (by simp [Regular, OnCircle.ofIndex])
      (by simp [Regular, OnCircle.ofIndex])
  have hb : flagged.world.confirmed.Built := .inProgress (Or.inr (OnCircle.ofIndex 11)) (1 / 2)
  have hn : (initial.recorded [ofIndex 7] [ofIndex 9]).Close flagged := ⟨by decide, by decide⟩
  obtain ⟨turn, s', hrun, hdriver, hclean⟩ := burst_leaves_clean hs hb fun _ => hn
  have hpoints : (initial.recorded [ofIndex 7] [ofIndex 9]).ListsPoints flagged (ofIndex 7)
      [ofIndex 7, ofIndex 8, ofIndex 10] := by decide +kernel
  have hentry := hpoints.goesBy hs (OnCircle.ofIndex 11) (by decide)
  have hcount : (run (.idle (initial.recorded [ofIndex 7] [ofIndex 9])) flagged .ok).toOption.map
      (·.count) = some 4 := by
    rw [hentry.run_eq_guided]
    decide +kernel
  rw [hrun] at hcount
  have hcount : turn.count = 4 := Option.some.inj hcount
  have hfound : turn.found ≠ [] := by
    intro hnil
    simp [Bracket.Turn.count, hnil] at hcount
  obtain ⟨hempty, i, -, h⟩ := hclean hfound
  exact ⟨turn, s', hrun, hdriver, hcount, hempty, h.flags, h.batch, h.predictedIndex.trans hcount,
    h.serverTick, h.ghosts⟩

end Prediction

end Metronome
