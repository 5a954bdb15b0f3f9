import Metronome.Proofs.Session

/-!
# The log is faithful

The driver counts its invocations, the bracket counts the bodies that it ran, the time record
numbers the invocations of a prediction burst, and the log lists them. `Faithful` says that all of
these agree: a frame adds to the log either why it was skipped, or its invocations, in brackets if
they are a burst; there are as many of them as the frame returns, and while a body of a burst runs
the time record tells what was logged last (`log_is_faithful`).
-/

namespace Metronome

variable {τ φ H : Type}

/-- What a frame of a driver adds to the log: the events, and the invocations among them. -/
inductive Chronicle (d : Driver) : List (Event τ φ) → List (Invocation τ φ) → Prop
  /-- The frame is skipped. -/
  | skipped (reason : SkipReason) : Chronicle d [.skipped d reason] []
  /-- A burst is entered, runs, and is exited with the number of its invocations. -/
  | burst {is : List (Invocation τ φ)} (bursts : d ≠ .presentation) (tick : Tick) (n : UInt32)
      (ran : is ≠ []) (drivers : ∀ i ∈ is, i.driver = d) (count : n.toNat = is.length) :
      Chronicle d (.entered d tick :: (is.map .invoked ++ [.exited d n])) is
  /-- A frame is presented. -/
  | single (presents : d = .presentation) {i : Invocation τ φ} (driver : i.driver = d) :
      Chronicle d [.invoked i] [i]

/-- The log, the time record and the bodies agree on a frame. -/
structure Faithful (d : Driver) (w w' : World τ φ H) (found : List (World τ φ H))
    (es : List (Event τ φ)) (is : List (Invocation τ φ)) : Prop where
  /-- The frame adds these events. -/
  appended : w'.events = w.events ++ es
  /-- They are those of a frame. -/
  chronicle : Chronicle d es is
  /-- Each body finds its invocation logged last. -/
  found_eq : found.map World.invocation? = is.map some
  /-- In a burst it is what the time record tells. -/
  told : d ≠ .presentation → ∀ x ∈ found, ∀ i, x.invocation? = some i → i.ToldBy x.time
  /-- The time record numbers the invocations of a prediction burst from one. -/
  numbered : d = .prediction → ∀ k (hk : k < found.length),
    found[k].time.predictedIndex.toNat = k + 1

namespace World

theorem events_eq_of_past {w w' : World τ φ H} (h : w'.past = w.past) : w'.events = w.events :=
  congrArg List.reverse h

variable [Host H τ] {d : Driver} {runs : World τ φ H → World τ φ H → Prop} {w w' : World τ φ H}
  {found : List (World τ φ H)}

/-- After an invocation whose body writes nothing, its event was added to the log, and the time
record still tells it. -/
theorem record_of_exit {w₁ w₂ : World τ φ H} {t : TimeRecord τ φ} {i : Invocation τ φ}
    (hkept : w₁.time = (w.during t i).time ∧ w₁.past = (w.during t i).past)
    (hexit : w₁.exitScope = .ok w₂) :
    w₂.time = t ∧ w₂.events = w.events ++ [.invoked i] := by
  obtain ⟨htime, hpast⟩ := hkept
  have hframe := exitScope_frame hexit
  constructor
  · rw [hframe, htime, time_during]
  · rw [← events_record]
    exact events_eq_of_past (by rw [hframe, hpast]; rfl)

theorem Stretch.told (hkeeps : ∀ x y, runs x y → y.time = x.time ∧ y.past = x.past)
    (h : Stretch d runs w found w') :
    ∃ is : List (Invocation τ φ), w'.events = w.events ++ is.map .invoked ∧
      found.map World.invocation? = is.map some ∧ (∀ i ∈ is, i.driver = d) ∧
      (∀ x ∈ found, ∀ i, x.invocation? = some i → i.ToldBy x.time) ∧
      (d = .prediction → ∀ k (hk : k < found.length),
        found[k].time.predictedIndex.toNat = w.time.predictedIndex.toNat + (k + 1)) := by
  induction h with
  | nil => exact ⟨[], by simp⟩
  | @invoke w w₁ w₂ w' found i t driver told counts ran closes _ ih =>
    obtain ⟨is, hevents, hfound, hdrivers, htold, hnumbered⟩ := ih
    obtain ⟨htime, hlogged⟩ := record_of_exit (hkeeps _ _ ran) closes
    refine ⟨i :: is, ?_, ?_, List.forall_mem_cons.mpr ⟨driver, hdrivers⟩, ?_, fun hd k hk => ?_⟩
    · rw [hevents, hlogged, List.append_assoc]
      rfl
    · rw [List.map_cons, hfound]
      rfl
    · refine List.forall_mem_cons.mpr ⟨fun j hj => ?_, htold⟩
      obtain rfl := Option.some.inj hj
      exact told
    · have hcount := counts hd
      cases k with
      | zero => exact hcount
      | succ k =>
        have hrest := hnumbered hd k (Nat.lt_of_succ_lt_succ hk)
        rw [htime] at hrest
        rw [List.getElem_cons_succ]
        omega

/-- The log is faithful to a visit whose bodies write nothing. -/
theorem Visit.faithful (hkeeps : ∀ x y, runs x y → y.time = x.time ∧ y.past = x.past)
    (h : Visit d runs w found w') : ∃ es is, Faithful d w w' found es is := by
  cases h with
  | skipped reason =>
    refine ⟨[.skipped d reason], [], ?_⟩
    constructor
    case appended => exact events_record w _
    case chronicle => exact .skipped reason
    case found_eq => rfl
    case told => exact fun _ x hx => absurd hx List.not_mem_nil
    case numbered => exact fun _ k hk => absurd hk (Nat.not_lt_zero k)
  | @burst w₁ _ bursts t t' tick n fresh stretch ran count =>
    obtain ⟨is, hevents, hfound, hdrivers, htold, hnumbered⟩ := stretch.told hkeeps
    have hlength : found.length = is.length := by
      simpa using congrArg List.length hfound
    refine ⟨.entered d tick :: (is.map .invoked ++ [.exited d n]), is, ?_⟩
    constructor
    case appended =>
      have hentered : (({ w with time := t } : World τ φ H).record (.entered d tick)).events =
          w.events ++ [.entered d tick] := events_record _ _
      have hexited : (({ w₁ with time := t' } : World τ φ H).record (.exited d n)).events =
          w₁.events ++ [.exited d n] := events_record _ _
      rw [hexited, hevents, hentered]
      simp
    case chronicle =>
      have hne : is ≠ [] := fun hnil => ran <|
        List.length_eq_zero_iff.mp (by rw [hlength, hnil]; rfl)
      exact .burst bursts tick n hne hdrivers (count.trans hlength)
    case found_eq => exact hfound
    case told => exact fun _ => htold
    case numbered =>
      intro hd k hk
      have hnumber := hnumbered hd k hk
      have hzero : t.predictedIndex.toNat = 0 := by rw [fresh hd]; rfl
      exact hnumber.trans (by show t.predictedIndex.toNat + _ = _; omega)
  | single presents i t t' driver ran closes =>
    refine ⟨[.invoked i], [i], ?_⟩
    constructor
    case appended => exact (record_of_exit (hkeeps _ _ ran) closes).2
    case chronicle => exact .single presents driver
    case found_eq => rfl
    case told => exact fun hbursts => absurd presents hbursts
    case numbered =>
      intro hd
      cases presents.symm.trans hd

end World

namespace Session

variable [Seconds τ] [Fraction φ] [Clock τ φ] [Host H τ]

/-- The body of an operation writes neither to the time record nor to the log. -/
def Op.KeepsRecord (op : Op τ φ H) : Prop :=
  ∀ w w', op.Runs w w' → w'.time = w.time ∧ w'.past = w.past

/-- What a call added to the log. -/
def Call.tale (c : Call τ φ H) : List (Event τ φ) :=
  c.after.world.events.drop c.before.world.events.length

omit [Seconds τ] [Fraction φ] [Clock τ φ] [Host H τ] in
theorem Call.tale_eq {c : Call τ φ H} {es : List (Event τ φ)}
    (h : c.after.world.events = c.before.world.events ++ es) : c.tale = es := by
  rw [tale, h, List.drop_left]

/-- The log tells a call: the frame of its driver, or nothing. -/
structure Call.Told (c : Call τ φ H) : Prop where
  appended : c.after.world.events = c.before.world.events ++ c.tale
  frame : ∀ d, c.op.driver? = some d → ∃ is, c.reply.count = is.length ∧
    Faithful d c.before.world c.after.world c.reply.worlds c.tale is
  silent : c.op.driver? = none → c.reply.count = 0 ∧ c.tale = []

theorem Call.told {c : Call τ φ H} (hs : c.before.Idle)
    (hact : c.before.act c.op = .ok (c.reply, c.after)) (hkeeps : c.op.KeepsRecord) : c.Told := by
  cases hd : c.op.driver? with
  | none =>
    obtain ⟨hworlds, hpast, -⟩ := rest_of_act hs hact hd
    have hsame : c.after.world.events = c.before.world.events ++ [] :=
      (World.events_eq_of_past hpast).trans (List.append_nil _).symm
    have htale := Call.tale_eq hsame
    constructor
    case appended => rwa [htale]
    case frame =>
      intro d hsome
      cases hd.symm.trans hsome
    case silent =>
      refine fun _ => ⟨?_, htale⟩
      rw [Reply.count_eq, hworlds]
      rfl
  | some d =>
    obtain ⟨es, is, hfaithful⟩ := (visit_of_act hs hact hd).1.faithful hkeeps
    obtain rfl := Call.tale_eq hfaithful.appended
    constructor
    case appended => exact hfaithful.appended
    case frame =>
      intro d' hsome
      obtain rfl := Option.some.inj (hd.symm.trans hsome)
      refine ⟨is, ?_, hfaithful⟩
      rw [Reply.count_eq]
      simpa using congrArg List.length hfaithful.found_eq
    case silent =>
      intro hnone
      cases hd.symm.trans hnone

/-- What calls in a row add to the log are the tales of the calls, one after another. -/
theorem Along.events_eq {s s' : Session τ φ H} {calls : List (Call τ φ H)} (h : Along s calls s')
    (hcalls : ∀ c ∈ calls, c.Told) :
    s'.world.events = s.world.events ++ calls.flatMap Call.tale := by
  induction h with
  | nil => exact (List.append_nil _).symm
  | cons _ _ ih =>
    obtain ⟨hfirst, hrest⟩ := List.forall_mem_cons.mp hcalls
    rw [ih hrest, hfirst.appended, List.append_assoc, List.flatMap_cons]

/-- The log is faithful, whatever drivers run in what order: in calls in a row whose bodies write
nothing, each call of a driver only adds to the log either that it was skipped, and returns zero,
or its invocations, and returns their number; every body finds its own invocation logged last and,
in a burst, told by the time record; a prediction burst numbers its invocations from one. Whatever a
session admits next returns. -/
theorem log_is_faithful [LawfulFraction φ] {s s' : Session τ φ H} {calls : List (Call τ φ H)}
    (hs : s.Idle) (h : Along s calls s') (hkeeps : ∀ c ∈ calls, c.op.KeepsRecord) :
    (∀ c ∈ calls, c.Told) ∧ s'.world.events = s.world.events ++ calls.flatMap Call.tale ∧
      ∀ op, s'.Admits op → ∃ reply s'', Along s (calls ++ [⟨s', op, reply, s''⟩]) s'' := by
  obtain ⟨hidle, hidle'⟩ := h.idle hs
  have hall : ∀ c ∈ calls, c.Told := fun c hc =>
    Call.told (hidle c hc).1 (hidle c hc).2 (hkeeps c hc)
  refine ⟨hall, h.events_eq hall, fun op hop => ?_⟩
  obtain ⟨reply, s'', hact⟩ := exists_act hidle' hop
  exact ⟨reply, s'', h.snoc hact⟩

/-- In a new session all drivers run, nine times together. -/
theorem log_is_faithful_new : ∃ calls s',
    Along (start Config.sixty TallyHost.empty Tick.invalid) calls s' ∧
      calls.map (fun c => c.reply.count) = [0, 4, 0, 0, 0, 4, 1] ∧ (∀ c ∈ calls, c.Told) ∧
      s'.world.events = calls.flatMap Call.tale := by
  let s : Session Rat Rat (TallyHost Rat) := start Config.sixty TallyHost.empty Tick.invalid
  let s₁ := s.reached ((everyDriver _).take 5)
  have hpoints : s₁.prediction.state.ListsPoints s₁.scene (Tick.ofIndex 5)
      [Tick.ofIndex 5, Tick.ofIndex 8] := by decide +kernel
  have hentry := hpoints.goesBy (by decide +kernel) (by decide +kernel) (by decide +kernel)
  have hrun : (s.run (everyDriver _)).toOption.map (fun x => x.1.map Reply.count) =
      some [0, 4, 0, 0, 0, 4, 1] := by
    rw [show everyDriver _ = (everyDriver _).take 5 ++ .predict .ok :: [.present .ok] from rfl,
      run_burst hentry]
    decide +kernel
  obtain ⟨calls, s', halong, hops, hcounts⟩ := along_of_counts hrun
  have hkeeps : ∀ c ∈ calls, c.op.KeepsRecord := fun c hc w w' hruns => by
    rw [eq_of_runs_everyDriver (hops ▸ List.mem_map_of_mem hc) hruns]
    exact ⟨rfl, rfl⟩
  obtain ⟨htold, hevents, -⟩ := log_is_faithful ⟨rfl, rfl, rfl⟩ halong hkeeps
  exact ⟨calls, s', halong, hcounts, htold, hevents⟩

end Session

end Metronome
