import Metronome.Proofs.Prediction.Frame

/-!
# Reachable drivers

A new driver keeps no ticks. Between frames ticks are recorded or forgotten, and frames run:
`Reachable` collects what this leads to. All ticks that a reachable driver keeps are ticks of the
circle (`Reachable.sound`), wherever its replay points lie, and whatever its bursts come to.
-/

namespace Metronome

open Tick

/-- The driver with a history that was recorded for its next frame. -/
def Prediction.withHistory {τ φ : Type} (s : Prediction τ φ) (history : History) : Prediction τ φ :=
  { s with history }

@[simp] theorem Prediction.withHistory_lastFull {τ φ : Type} (s : Prediction τ φ)
    (history : History) : (s.withHistory history).lastFull = s.lastFull :=
  rfl

/-- The driver after ticks were recorded for its next burst. -/
def Prediction.recorded {τ φ : Type} (s : Prediction τ φ) (applied inputs : List Tick) :
    Prediction τ φ :=
  { s with history := ⟨s.history.applied.insertAll applied, s.history.inputs.insertAll inputs⟩ }

theorem Prediction.Sound.recorded {τ φ : Type} {s : Prediction τ φ} (hs : s.Sound)
    {applied inputs : List Tick} (ha : ∀ t ∈ applied, t.Regular) (hi : ∀ t ∈ inputs, t.Regular) :
    (s.recorded applied inputs).Sound where
  history := ⟨hs.history.applied.insertAll ha, hs.history.inputs.insertAll hi⟩
  lastFull := hs.lastFull

theorem Prediction.sound_initial {τ φ : Type} [Seconds τ] [Fraction φ] :
    (initial : Prediction τ φ).Sound where
  history := History.onCircle_empty
  lastFull := Or.inl rfl

/-- Before the first frame the ticks of any indices can be recorded. -/
theorem Prediction.sound_recorded_ofIndex {τ φ : Type} [Seconds τ] [Fraction φ]
    (ts us : List UInt32) :
    (initial.recorded (ts.map Tick.ofIndex) (us.map Tick.ofIndex) : Prediction τ φ).Sound :=
  have hregular : ∀ is : List UInt32, ∀ t ∈ is.map Tick.ofIndex, t.Regular := fun _ t ht => by
    obtain ⟨i, -, rfl⟩ := List.mem_map.mp ht
    exact Or.inr (OnCircle.ofIndex i)
  sound_initial.recorded (hregular ts) (hregular us)

/-- A client with one predicted entity, whose newest tick was just confirmed. -/
def Scene.client (config : Config Float Float32) (confirmed : Confirmed Float32) :
    Scene Float Float32 (TallyHost Float) where
  world := { World.start config TallyHost.empty with confirmed }
  ghosts := Ghosts.empty.spawn (EntityId.handedOut 0)

namespace Prediction

variable {τ φ H : Type} [Seconds τ] [Fraction φ] [Clock τ φ] [Host H τ]

/-! ## Inside a burst -/

/-- What holds of the driver between the invocations of a burst: its ticks are
ticks of the circle. -/
structure Underway (s : Prediction τ φ) : Prop where
  history : s.history.OnCircle
  lastFull : s.lastFull.OnCircle
  start : s.start.OnCircle
  ahead : ∀ t ∈ s.ahead, t.OnCircle

/-- A step keeps the ticks of the driver on the circle. -/
theorem Underway.step {s s' : Prediction τ φ} {c c' : Scene τ φ H} (h : Underway s)
    (hstep : Prediction.step (s, c) = .ok (s', c')) : Underway s' := by
  cases hahead : s.ahead with
  | nil =>
    obtain ⟨-, rfl, -⟩ := (step_trailing_iff hahead).mp hstep
    exact ⟨h.history, h.lastFull, h.start, h.ahead⟩
  | cons point rest =>
    obtain ⟨b, hb, hahead', hstart, hlast, hhistory, -⟩ := step_of_ahead hahead hstep
    have hpoints : ∀ t ∈ point :: rest, t.OnCircle := hahead ▸ h.ahead
    have hstop : b.stop.OnCircle := by
      rcases (nextBatch_stop hb).2 with hb | hb | ⟨n, hb⟩
      · exact hb ▸ hpoints point List.mem_cons_self
      · exact hb ▸ h.lastFull
      · exact hb ▸ h.start.shift n
    refine ⟨hhistory ▸ h.history, ?_, hstart ▸ hstop, fun t ht => ?_⟩
    · rcases hlast with hlast | hlast
      · exact hlast ▸ h.lastFull
      · exact hlast ▸ hstop
    · rw [hahead'] at ht
      split at ht
      · exact hpoints t ht
      · exact hpoints t (List.mem_cons_of_mem point ht)

/-- A course keeps the ticks of the driver on the circle. -/
theorem Course.underway {body : Scene τ φ H → Except Fault (Scene τ φ H)}
    {x r : Prediction τ φ × Scene τ φ H} {found : List (Scene τ φ H)} (h : Course body x found r) :
    Underway x.1 → Underway r.1 := by
  induction h with
  | done => exact id
  | leg _ hstep _ _ _ ih => exact fun hx => ih (hx.step hstep)

/-! ## Between frames -/

/-- A frame keeps the ticks of the driver on the circle. -/
theorem Sound.of_run {s : Prediction τ φ} {c : Scene τ φ H}
    {body : Scene τ φ H → Except Fault (Scene τ φ H)} (hs : s.Sound) (hb : c.world.confirmed.Built)
    {turn : Bracket.Turn (Prediction τ φ) (Scene τ φ H)} (hrun : run (.idle s) c body = .ok turn) :
    ∃ s', turn.driver = .idle s' ∧ s'.Sound := by
  by_cases hv : c.world.confirmed.isValid = true
  · by_cases hg : LacksGhost c
    · obtain rfl := Except.ok.inj ((run_of_lacksGhost hv hg body).symm.trans hrun)
      exact ⟨_, rfl, History.onCircle_empty, Or.inl rfl⟩
    have hc := hb.onCircle hv
    obtain ⟨_, start, near, far, hplan, -, -, -, hentry⟩ := exists_entry hs hc hg
    have hlast := hs.onCircle_planned hc
    by_cases hnone : near ++ far = [] ∧ c.world.confirmed.isPartial = false
    · rw [hnone.1] at hentry
      obtain rfl := Except.ok.inj ((hentry.run_eq hnone.2).symm.trans hrun)
      exact ⟨_, rfl, History.onCircle_empty, Or.inr hlast⟩
    · have hmore := (Classical.not_and_iff_not_or_not.mp hnone).imp_right eq_true_of_ne_false
      obtain ⟨r, s', hcourse, hsettles, hdriver, -⟩ := (hentry.run_eq_ok_iff hmore).mp hrun
      have hbegin : Underway (s.entered c start (near ++ far)) :=
        ⟨History.onCircle_empty, hlast, hplan.onCircle _ List.mem_cons_self,
          fun t ht => hplan.onCircle t (List.mem_cons_of_mem _ ht)⟩
      have hend := hcourse.underway hbegin
      obtain ⟨-, -, -, hy⟩ := settle_eq_ok_iff.mp hsettles
      obtain ⟨rfl, -⟩ := Prod.mk.inj hy
      exact ⟨_, hdriver, hend.history, Or.inr hend.lastFull⟩
  · obtain rfl := Except.ok.inj ((run_of_not_isValid (by simpa using hv) body).symm.trans hrun)
    exact ⟨s, rfl, hs⟩

/-- The drivers that frames lead to, with any ticks recorded or forgotten between them. -/
inductive Reachable (H : Type) [Host H τ] : Prediction τ φ → Prop
  /-- Before the first frame. -/
  | initial : Reachable H initial
  /-- Another history was recorded. -/
  | recorded {s : Prediction τ φ} {history : History} (before : Reachable H s)
      (onCircle : history.OnCircle) : Reachable H (s.withHistory history)
  /-- A frame returned. -/
  | frame {s s' : Prediction τ φ} {c : Scene τ φ H}
      {body : Scene τ φ H → Except Fault (Scene τ φ H)}
      {turn : Bracket.Turn (Prediction τ φ) (Scene τ φ H)} (before : Reachable H s)
      (built : c.world.confirmed.Built) (runs : run (.idle s) c body = .ok turn)
      (ends : turn.driver = .idle s') : Reachable H s'

/-- The ticks of a reachable driver are ticks of the circle. -/
theorem Reachable.sound {s : Prediction τ φ} (h : Reachable H s) : s.Sound := by
  induction h with
  | initial => exact sound_initial
  | recorded _ honCircle ih => exact ⟨honCircle, ih.lastFull⟩
  | frame _ hbuilt hrun hend ih =>
    obtain ⟨s', hdriver, hsound⟩ := ih.of_run hbuilt hrun
    rw [hend] at hdriver
    cases hdriver
    exact hsound

end Prediction

end Metronome
