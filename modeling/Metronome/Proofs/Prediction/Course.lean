import Metronome.Proofs.Bracket
import Metronome.Proofs.Prediction.Leg

/-!
# The course of a burst

Between the queries of its bracket a burst goes its course: while there is more, a step opens the
scene, the body runs in it and its scope is closed. `run_eq_ok_iff` takes the bracket away: a run
that returns either skipped the frame, or is a course from the driver that was set up, which has to
pass the checks at its end.
-/

namespace Metronome.Prediction

variable {τ φ H : Type} [Seconds τ] [Fraction φ] [Clock τ φ] [Host H τ]

/-- Invocations one after another, with the scenes that the bodies found. -/
inductive Course (body : Scene τ φ H → Except Fault (Scene τ φ H)) :
    Prediction τ φ × Scene τ φ H → List (Scene τ φ H) → Prediction τ φ × Scene τ φ H → Prop
  /-- There is no more. -/
  | done {s : Prediction τ φ} {c : Scene τ φ H} (ends : wantsMore s = false) :
      Course body (s, c) [] (s, c)
  /-- An invocation, and what comes after it. -/
  | leg {s s₁ : Prediction τ φ} {c c₁ c₂ : Scene τ φ H} {w : World τ φ H}
      {found : List (Scene τ φ H)} {r : Prediction τ φ × Scene τ φ H}
      (more : wantsMore s = true) (steps : step (s, c) = .ok (s₁, c₁))
      (runs : body c₁ = .ok c₂) (closes : c₂.world.exitScope = .ok w)
      (rest : Course body (s₁, { c₂ with world := w }) found r) : Course body (s, c) (c₁ :: found) r

/-- The end of a burst, after its last scope was closed. -/
def settle : Prediction τ φ × Scene τ φ H → Except Fault (Prediction τ φ × Scene τ φ H)
  | (s, c) => do
    checkReached c.world.time s.confirmed
    checkFinals s.finals
    let world := { c.world with time := restored c.world.time s.confirmed s.savedBatch }
    return ({ s with ahead := [] },
      { world := world.record (.exited .prediction s.invocations), ghosts := c.ghosts.enableAll })

/-- A burst that was set up, before its first step. -/
def prepared (s : Prediction τ φ) (c : Scene τ φ H) : Prediction τ φ × Scene τ φ H :=
  ({ s with savedBatch := c.world.time.batch },
    { c with world := { c.world with
        time := { c.world.time with
          predictedIndex := 0
          flags := c.world.time.flags.insert StepFlags.inLoop } } })

omit [Seconds τ] [Clock τ φ] [Host H τ] in
theorem wantsMore_prepared (s : Prediction τ φ) (c : Scene τ φ H) :
    wantsMore (prepared s c).1 = wantsMore s :=
  rfl

theorem enter_eq (s : Prediction τ φ) (c : Scene τ φ H) : enter (s, c) = step (prepared s c) :=
  rfl

omit [Seconds τ] [Clock τ φ] in
theorem leave_eq (s : Prediction τ φ) (c : Scene τ φ H) :
    leave (s, c) = (do settle (s, { c with world := ← c.world.exitScope })) :=
  rfl

/-! ## The decision of a frame -/

omit [Host H τ] in
/-- A frame that is planned has something to run, or is skipped for want of it. Both use up the
history. -/
theorem skips_or_begins_of_plan {s : Prediction τ φ} {c : Scene τ φ H}
    {x : Bool × Prediction τ φ × Scene τ φ H} (h : plan s c = .ok x) :
    (∃ s₁, s₁.history = History.empty ∧ x = skip .nothingToReplay s₁ c) ∨
      ∃ s₁ target fresh oldest ahead,
        s₁.history = History.empty ∧ ¬(ahead.isEmpty && !c.world.confirmed.isPartial) = true ∧
        begin s₁ c target fresh oldest ahead = .ok x := by
  simp only [plan, bind_eq_ok_iff] at h
  obtain ⟨target, -, ⟨applied, lastFull⟩, -, points, -, h⟩ := h
  cases points with
  | none =>
    cases h
    exact Or.inl ⟨_, rfl, rfl⟩
  | some points =>
    obtain ⟨age, -, h⟩ := bind_eq_ok_iff.mp h
    cases points with
    | nil =>
      dsimp only at h
      split at h
      · cases h
      · cases h
        exact Or.inl ⟨_, rfl, rfl⟩
    | cons oldest ahead =>
      dsimp only at h
      split at h
      · cases h
        exact Or.inl ⟨_, rfl, rfl⟩
      · exact Or.inr ⟨_, target, _, oldest, ahead, rfl, ‹_›, h⟩

omit [Host H τ] in
/-- A frame is skipped, or a burst begins. It begins with an empty history, and with a point ahead
or the part of a tick. -/
theorem skips_or_begins {s : Prediction τ φ} {c : Scene τ φ H}
    {x : Bool × Prediction τ φ × Scene τ φ H} (h : wantsEntry (s, c) = .ok x) :
    (∃ reason s₁, x = skip reason s₁ c) ∨ ∃ s₁ target fresh oldest ahead,
      s₁.history = History.empty ∧ ¬(ahead.isEmpty && !c.world.confirmed.isPartial) = true ∧
      begin s₁ c target fresh oldest ahead = .ok x := by
  simp only [wantsEntry] at h
  split at h
  · cases h
    exact Or.inl ⟨_, _, rfl⟩
  split at h
  · exact (skips_or_begins_of_plan h).imp_left fun ⟨s₁, _, hx⟩ => ⟨_, s₁, hx⟩
  split at h
  · cases h
    exact Or.inl ⟨_, _, rfl⟩
  · exact (skips_or_begins_of_plan h).imp_left fun ⟨s₁, _, hx⟩ => ⟨_, s₁, hx⟩

omit [Host H τ] in
/-- A burst is set up with an empty history, and has something to run. -/
theorem begins_of_wantsEntry {s s₀ : Prediction τ φ} {c c₀ : Scene τ φ H}
    (h : wantsEntry (s, c) = .ok (true, s₀, c₀)) :
    s₀.history = History.empty ∧ wantsMore s₀ = true := by
  rcases skips_or_begins h with
    ⟨reason, s₁, ⟨⟩⟩ | ⟨s₁, target, fresh, oldest, ahead, hempty, hmore, h⟩
  obtain ⟨_, -, h⟩ := bind_eq_ok_iff.mp h
  cases h
  refine ⟨hempty, ?_⟩
  cases hp : c.world.confirmed.isPartial <;> cases ha : ahead.isEmpty <;>
    simp [wantsMore, hp, ha] at hmore ⊢

/-! ## Runs and courses -/

variable {body : Scene τ φ H → Except Fault (Scene τ φ H)}

/-- A query after a body closes its scope and, if there is more, takes the next step. -/
theorem query_goesOn_iff {s : Prediction τ φ} {c : Scene τ φ H}
    {b : Bracket (Prediction τ φ × Scene τ φ H)} :
    Bracket.query .repeatWhile hooks ⟨true, (s, c)⟩ = .ok (true, b) ↔
      wantsMore s = true ∧ ∃ w x, c.world.exitScope = .ok w ∧
      step (s, { c with world := w }) = .ok x ∧ ⟨true, x⟩ = b := by
  rw [Bracket.query_of_active rfl]
  simp only [Bracket.goesOn, hooks, ok_bind]
  cases hmore : wantsMore s
  · simp [bind_eq_ok_iff]
  · simp only [↓reduceIte, again, bind_eq_ok_iff, pure_eq_ok, Except.ok.injEq,
      Prod.mk.injEq, true_and]
    constructor
    · rintro ⟨x, ⟨w, hw, hx⟩, hb⟩
      exact ⟨w, x, hw, hx, hb⟩
    · rintro ⟨w, x, hw, hx, hb⟩
      exact ⟨x, ⟨w, hw, hx⟩, hb⟩

/-- A query after the last body closes its scope and settles the burst. -/
theorem query_ends_iff {s : Prediction τ φ} {c : Scene τ φ H}
    {b : Bracket (Prediction τ φ × Scene τ φ H)} :
    Bracket.query .repeatWhile hooks ⟨true, (s, c)⟩ = .ok (false, b) ↔
      wantsMore s = false ∧ ∃ w x, c.world.exitScope = .ok w ∧
      settle (s, { c with world := w }) = .ok x ∧
        ⟨false, x⟩ = b := by
  rw [Bracket.query_of_active rfl]
  simp only [Bracket.goesOn, hooks, ok_bind]
  cases hmore : wantsMore s
  · simp only [Bool.false_eq_true, ↓reduceIte, leave_eq, bind_eq_ok_iff, pure_eq_ok,
      Except.ok.injEq, Prod.mk.injEq, true_and]
    constructor
    · rintro ⟨x, ⟨w, hw, hx⟩, hb⟩
      exact ⟨w, x, hw, hx, hb⟩
    · rintro ⟨w, x, hw, hx, hb⟩
      exact ⟨x, ⟨w, hw, hx⟩, hb⟩
  · simp [bind_eq_ok_iff]

/-- Queried after a body, the bracket goes on with a course. -/
theorem Course.of_trace {b b' : Bracket (Prediction τ φ × Scene τ φ H)}
    {found : List (Prediction τ φ × Scene τ φ H)}
    (h : Bracket.Trace .repeatWhile hooks (Bracket.besideState body) b found b') :
    b.active = true → ∃ w r, b.state.2.world.exitScope = .ok w ∧
      Course body (b.state.1, { b.state.2 with world := w }) (found.map Prod.snd) r ∧
      settle r = .ok b'.state ∧ b'.active = false := by
  induction h with
  | @declined b b' hq =>
    obtain ⟨active, s, c⟩ := b
    rintro rfl
    obtain ⟨hends, w, x, hw, hx, rfl⟩ := query_ends_iff.mp hq
    exact ⟨w, _, hw, .done hends, hx, rfl⟩
  | @ran b b₁ b' x found hq hx _ ih =>
    obtain ⟨active, s, c⟩ := b
    rintro rfl
    obtain ⟨hmore, w, ⟨s₁, c₁⟩, hw, hstep, rfl⟩ := query_goesOn_iff.mp hq
    obtain ⟨c₂, hbody, rfl⟩ := Bracket.besideState_eq_ok_iff.mp hx
    obtain ⟨w', r, hw', hcourse, hsettle, hidle⟩ := ih rfl
    exact ⟨w, r, hw, .leg hmore hstep hbody hw' hcourse, hsettle, hidle⟩

/-- A course that settles is what the bracket runs when it is queried after a body. -/
theorem Course.trace {x r : Prediction τ φ × Scene τ φ H} {found : List (Scene τ φ H)}
    (h : Course body x found r) {y : Prediction τ φ × Scene τ φ H} (hy : settle r = .ok y) :
    ∀ {c : Scene τ φ H} {w : World τ φ H}, c.world.exitScope = .ok w → x.2 = { c with world := w } →
      ∃ states, states.map Prod.snd = found ∧
        Bracket.Trace .repeatWhile hooks (Bracket.besideState body) ⟨true, (x.1, c)⟩ states
          ⟨false, y⟩ := by
  induction h with
  | done hends =>
    rintro c w hw rfl
    exact ⟨[], rfl, .declined (query_ends_iff.mpr ⟨hends, w, y, hw, hy, rfl⟩)⟩
  | @leg s s₁ c' c₁ c₂ w' found r hmore hstep hbody hw' _ ih =>
    rintro c w hw rfl
    obtain ⟨states, hstates, htrace⟩ := ih hy hw' rfl
    refine ⟨(s₁, c₁) :: states, by rw [List.map_cons, hstates], ?_⟩
    exact .ran (query_goesOn_iff.mpr ⟨hmore, w, (s₁, c₁), hw, hstep, rfl⟩)
      (Bracket.besideState_eq_ok_iff.mpr ⟨c₂, hbody, rfl⟩) htrace

/-- What a frame comes to: the driver declines, or a burst goes its course and settles. -/
inductive Outcome (body : Scene τ φ H → Except Fault (Scene τ φ H)) (s : Prediction τ φ)
    (c : Scene τ φ H) : Bracket.Turn (Prediction τ φ) (Scene τ φ H) → Prop
  /-- The frame is skipped. -/
  | skipped {s' : Prediction τ φ} {c' : Scene τ φ H}
      (declines : wantsEntry (s, c) = .ok (false, s', c')) : Outcome body s c ⟨.idle s', c', []⟩
  /-- A burst runs. -/
  | burst {s₀ s' : Prediction τ φ} {c₀ c' : Scene τ φ H} {found : List (Scene τ φ H)}
      {r : Prediction τ φ × Scene τ φ H} (enters : wantsEntry (s, c) = .ok (true, s₀, c₀))
      (course : Course body (prepared s₀ c₀) found r) (settles : settle r = .ok (s', c'))
      (fits : found.length < UInt32.size) : Outcome body s c ⟨.idle s', c', found⟩

/-- The first query of a frame, answered `true`. -/
theorem query_enters_iff {s : Prediction τ φ} {c : Scene τ φ H}
    {b : Bracket (Prediction τ φ × Scene τ φ H)} :
    Bracket.query .repeatWhile hooks ⟨false, (s, c)⟩ = .ok (true, b) ↔
      ∃ s₀ c₀ x, wantsEntry (s, c) = .ok (true, s₀, c₀) ∧ step (prepared s₀ c₀) = .ok x ∧
      ⟨true, x⟩ = b := by
  rw [Bracket.query_of_inactive rfl]
  simp only [hooks, bind_eq_ok_iff]
  constructor
  · rintro ⟨⟨wanted, s₀, c₀⟩, hentry, h⟩
    cases wanted with
    | false => simp at h
    | true =>
      simp only [↓reduceIte, enter_eq, bind_eq_ok_iff, pure_eq_ok, Except.ok.injEq, Prod.mk.injEq,
        true_and] at h
      obtain ⟨x, hx, hb⟩ := h
      exact ⟨s₀, c₀, x, hentry, hx, hb⟩
  · rintro ⟨s₀, c₀, x, hentry, hx, rfl⟩
    exact ⟨(true, s₀, c₀), hentry, by simp [enter_eq, hx]⟩

/-- The first query of a frame, answered `false`. -/
theorem query_declines_iff {s : Prediction τ φ} {c : Scene τ φ H}
    {b : Bracket (Prediction τ φ × Scene τ φ H)} :
    Bracket.query .repeatWhile hooks ⟨false, (s, c)⟩ = .ok (false, b) ↔
      ∃ s' c', wantsEntry (s, c) = .ok (false, s', c') ∧ ⟨false, (s', c')⟩ = b := by
  rw [Bracket.query_of_inactive rfl]
  simp only [hooks, bind_eq_ok_iff]
  constructor
  · rintro ⟨⟨wanted, s', c'⟩, hentry, h⟩
    cases wanted with
    | false => exact ⟨s', c', hentry, by simpa using h⟩
    | true => simp [bind_eq_ok_iff] at h
  · rintro ⟨s', c', hentry, rfl⟩
    exact ⟨(false, s', c'), hentry, rfl⟩

/-- A run returns exactly the outcomes of its frame. -/
theorem run_eq_ok_iff {s : Prediction τ φ} {c : Scene τ φ H}
    {turn : Bracket.Turn (Prediction τ φ) (Scene τ φ H)} :
    run (.idle s) c body = .ok turn ↔ Outcome body s c turn := by
  refine Bracket.runIn_eq_ok_iff.trans ⟨?_, fun h => ?_⟩
  · rintro ⟨states, b, htrace, hlen, rfl⟩
    cases htrace with
    | declined hq =>
      obtain ⟨s', c', hentry, rfl⟩ := query_declines_iff.mp hq
      exact .skipped hentry
    | ran hq hx htrace =>
      obtain ⟨s₀, c₀, ⟨s₁, c₁⟩, hentry, hstep, rfl⟩ := query_enters_iff.mp hq
      obtain ⟨c₂, hbody, rfl⟩ := Bracket.besideState_eq_ok_iff.mp hx
      obtain ⟨w, r, hw, hcourse, hsettle, hidle⟩ := Course.of_trace htrace rfl
      obtain ⟨active, s', c'⟩ := b
      obtain rfl := hidle
      have hmore := (wantsMore_prepared s₀ c₀).trans (begins_of_wantsEntry hentry).2
      exact .burst hentry (.leg hmore hstep hbody hw hcourse) hsettle (by simpa using hlen)
  · cases h with
    | @skipped s' c' hentry =>
      exact ⟨[], ⟨false, (s', c')⟩, .declined (query_declines_iff.mpr ⟨s', c', hentry, rfl⟩),
        (by decide : 0 < UInt32.size), rfl⟩
    | @burst s₀ s' c₀ c' found r hentry hcourse hsettle hlen =>
      have hmore := (begins_of_wantsEntry hentry).2
      cases hcourse with
      | done hends => exact absurd hmore (by simpa [wantsMore] using hends)
      | @leg _ s₁ _ c₁ c₂ w rest _ _ hstep hbody hw hrest =>
        obtain ⟨states, rfl, htrace⟩ := hrest.trace hsettle hw rfl
        exact ⟨(s₁, c₁) :: states, ⟨false, (s', c')⟩,
          .ran (query_enters_iff.mpr ⟨s₀, c₀, _, hentry, hstep, rfl⟩)
            (Bracket.besideState_eq_ok_iff.mpr ⟨c₂, hbody, rfl⟩) htrace,
          by simpa using hlen, rfl⟩

end Metronome.Prediction
