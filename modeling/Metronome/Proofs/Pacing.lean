import Metronome.Config.Load
import Metronome.Proofs.Duration
import Metronome.Proofs.Residual
import Metronome.Proofs.Server

/-!
# Pacing

A host that sleeps between frames waits for what is missing to the next tick. Settings that are
accepted have a tick length that is a positive number (`Config.Admitted.step_pos`), and whatever the
frames were, what a server carries is less than a tick or no number (`Server.Reached.within`). So it
is the tick length alone that decides whether there is a wait to tell: below `2 ^ 64` seconds there
is, and it is no longer than a tick; from there on the tick length has no duration, and asking for
the wait is a fault (`Server.delay_within_tick`).
-/

namespace Metronome

open Binary

/-! ## Settings that are accepted -/

namespace Config

/-- Settings that a run is started with: checked ones, and what the readers return. -/
inductive Admitted : Config Float Float32 → Prop
  /-- Settings that were checked. -/
  | checked {c : Config Float Float32} (accepts : c.validate = .ok ()) : Admitted c
  /-- Settings from a document in JSON. -/
  | json {c : Config Float Float32} {text : String} (reads : ofJsonText text = .ok c) : Admitted c
  /-- Settings from a document in YAML. -/
  | yaml {c : Config Float Float32} {text : String} (reads : ofYamlText text = .ok c) : Admitted c
  /-- Settings from a file. -/
  | file {c : Config Float Float32} {path : String} {content : Option ByteArray}
      (loads : load path content = .ok c) : Admitted c

theorem validate_of_validated {c c' : Config Float Float32} (h : c.validated = .ok c') :
    c'.validate = .ok () := by
  unfold validated at h
  cases hvalid : c.validate with
  | error e =>
    rw [hvalid] at h
    cases h
  | ok =>
    rw [hvalid] at h
    cases h
    exact hvalid

theorem validate_of_ofJsonText {text : String} {c : Config Float Float32}
    (h : ofJsonText text = .ok c) : c.validate = .ok () := by
  unfold ofJsonText at h
  split at h
  · exact validate_of_validated h
  · cases h

theorem validate_of_ofYamlText {text : String} {c : Config Float Float32}
    (h : ofYamlText text = .ok c) : c.validate = .ok () := by
  unfold ofYamlText at h
  split at h
  · exact validate_of_validated h
  · split at h
    · exact validate_of_validated h
    · cases h
  · cases h

/-- No reader returns settings that were not checked. -/
theorem Admitted.validate_eq {c : Config Float Float32} (h : c.Admitted) : c.validate = .ok () := by
  cases h with
  | checked accepts => exact accepts
  | json reads => exact validate_of_ofJsonText reads
  | yaml reads => exact validate_of_ofYamlText reads
  | file loads =>
    unfold load at loads
    split at loads
    · cases loads
    · split at loads
      · exact validate_of_ofYamlText loads
      · exact validate_of_ofYamlText loads
      · exact validate_of_ofJsonText loads
      · cases loads

/-- The tick length of accepted settings is a positive number. -/
theorem Admitted.step_pos {c : Config Float Float32} (h : c.Admitted) :
    c.step.isFinite ∧ 0 < (ofFloat c.step).toRat := by
  have hvalid := h.validate_eq
  unfold validate at hvalid
  split_ifs at hvalid with hstep
  rw [Bool.not_eq_true', Bool.not_eq_false, Bool.and_eq_true, decide_eq_true_eq] at hstep
  exact ⟨hstep.1, (ofBits_zero_lt_iff hstep.1).mp hstep.2⟩

end Config

/-! ## What a server carries -/

/-- Less than a step, if it is a positive number at all. -/
def Within (step residual : Float) : Prop :=
  Float.ofBits 0 < residual →
    residual.isFinite ∧ (ofFloat residual).toRat < (ofFloat step).toRat

/-- What is left of any number is less than a step. -/
theorem within_exactRemainder {step : Float} (hfinite : step.isFinite)
    (hpos : 0 < (ofFloat step).toRat) (total : Float) :
    Within step (exactRemainder total step) := by
  intro hlt
  obtain ⟨negative, n, d, hn⟩ := isFinite_iff.mp hfinite
  rw [hn] at hpos
  obtain ⟨rfl, hn'⟩ := toRat_pos_iff.mp hpos
  have hnan (h : exactRemainder total step = toFloat .nan) : False := by
    rw [h] at hlt
    revert hlt
    decide +kernel
  cases htotal : ofFloat total with
  | nan => exact (hnan (by rw [exactRemainder, htotal]; rfl)).elim
  | infinite => exact (hnan (by rw [exactRemainder, htotal]; rfl)).elim
  | finite negative' m e =>
    obtain ⟨m', e', hrest, -, hless⟩ := exists_exactRemainder htotal hn hn'
    have hrestfinite : (exactRemainder total step).isFinite := isFinite_iff.mpr ⟨_, _, _, hrest⟩
    have hrestpos := (ofBits_zero_lt_iff hrestfinite).mp hlt
    refine ⟨hrestfinite, ?_⟩
    rw [hrest] at hrestpos ⊢
    rw [toRat_of_nonneg hrestpos.le, hn, toRat_false]
    exact hless

/-- A frame leaves less than a step. -/
theorem Accumulator.within_advance {φ : Type} {config : Config Float φ}
    (hfinite : config.step.isFinite) (hpos : 0 < (ofFloat config.step).toRat)
    (a : Accumulator Float) (delta : Float) :
    Within config.step (a.advance delta config).2.residual := by
  have hrest : (a.advance delta config).2.residual =
      exactRemainder (StepPlan.due delta a.residual) config.step :=
    StepPlan.take_eq_remainder hfinite ((ofBits_zero_lt_iff hfinite).mpr hpos) ..
  exact hrest ▸ within_exactRemainder hfinite hpos _

namespace Server

section Queries

variable {τ φ H : Type} [Seconds τ] [Fraction φ] [Host H τ]

/-- What a server carries after its next query: a new frame adds to it, an open one does not. -/
def carried (b : Bracket (Server τ × World τ φ H)) : Accumulator τ :=
  if b.active then b.state.1.accumulator
  else (b.state.1.accumulator.advance b.state.2.frame.delta b.state.2.config).2

theorem accumulator_step {s s' : Server τ} {w w' : World τ φ H} (h : step (s, w) = .ok (s', w')) :
    s'.accumulator = s.accumulator := by
  unfold step at h
  dsimp only at h
  split_ifs at h
  all_goals
    obtain ⟨length, -, h⟩ := bind_eq_ok_iff.mp h
    obtain ⟨remaining, -, h⟩ := bind_eq_ok_iff.mp h
    obtain ⟨invocations, -, h⟩ := bind_eq_ok_iff.mp h
    cases h
    rfl

theorem carried_of_query {b b' : Bracket (Server τ × World τ φ H)} {runs : Bool}
    (h : Bracket.query .repeatWhile hooks b = .ok (runs, b')) :
    b'.active = runs ∧ b'.state.1.accumulator = carried b := by
  obtain ⟨active, s, w⟩ := b
  cases active with
  | true =>
    rw [Bracket.query_of_active rfl] at h
    obtain ⟨⟨more, x⟩, hmore, h⟩ := bind_eq_ok_iff.mp h
    cases hmore
    dsimp only at h
    split_ifs at h with hleft
    · obtain ⟨⟨s', w'⟩, hagain, h⟩ := bind_eq_ok_iff.mp h
      cases h
      obtain ⟨w₁, -, hstep⟩ := bind_eq_ok_iff.mp hagain
      exact ⟨rfl, accumulator_step hstep⟩
    · obtain ⟨⟨s', w'⟩, hleave, h⟩ := bind_eq_ok_iff.mp h
      cases h
      obtain ⟨w₁, -, hleave⟩ := bind_eq_ok_iff.mp hleave
      cases hleave
      exact ⟨rfl, rfl⟩
  | false =>
    rcases eq_or_ne (s.planned w).total 0 with hzero | hne
    · cases (query_idle_of_eq_zero hzero).symm.trans h
      exact ⟨rfl, rfl⟩
    · cases (query_idle_of_ne_zero hne).symm.trans h
      exact ⟨rfl, rfl⟩

/-- A whole frame adds to what is carried once at most: its later queries are of an open one. -/
theorem carried_of_trace {body : World τ φ H → Except Fault (World τ φ H)}
    {b b' : Bracket (Server τ × World τ φ H)} {found : List (Server τ × World τ φ H)}
    (h : Bracket.Trace .repeatWhile hooks (Bracket.besideState body) b found b') :
    b'.state.1.accumulator = carried b := by
  induction h with
  | declined hdeclines => exact (carried_of_query hdeclines).2
  | @ran b b₁ b' x found hruns hbody _ ih =>
    obtain ⟨hopen, hcarried⟩ := carried_of_query hruns
    obtain ⟨c', -, rfl⟩ := Bracket.besideState_eq_ok_iff.mp hbody
    rw [ih, ← hcarried]
    exact if_pos hopen

end Queries

variable {H : Type} [Host H Float]

/-- The servers that frames lead to under the same settings: any deltas, any bodies, and queries one
by one or whole frames. -/
inductive Reached (config : Config Float Float32) : Bracket (Server Float) → Prop
  /-- Before the first frame. -/
  | start : Reached config (.idle Server.start)
  /-- A query. -/
  | query {b b' : Bracket (Server Float)} {w w' : World Float Float32 H} {runs : Bool}
      (reached : Reached config b) (settings : w.config = config)
      (queries : Server.query b w = .ok (runs, b', w')) : Reached config b'
  /-- A whole frame. -/
  | run {b : Bracket (Server Float)} {w : World Float Float32 H}
      {body : World Float Float32 H → Except Fault (World Float Float32 H)}
      {turn : Bracket.Turn (Server Float) (World Float Float32 H)}
      (reached : Reached config b) (settings : w.config = config)
      (runs : Server.run b w body = .ok turn) : Reached config turn.driver

omit [Host H Float] in
/-- What is carried after the next query is less than a step, if what is carried now is. -/
theorem within_carried {config : Config Float Float32} (hadmitted : config.Admitted)
    {b : Bracket (Server Float)} {w : World Float Float32 H} (hsettings : w.config = config)
    (hwithin : Within config.step b.state.accumulator.residual) :
    Within config.step (carried (b.beside w)).residual := by
  obtain ⟨hfinite, hpos⟩ := hadmitted.step_pos
  unfold carried
  split_ifs
  · exact hwithin
  · subst hsettings
    exact Accumulator.within_advance hfinite hpos _ _

/-- Whatever the frames were, a server carries less than a step. -/
theorem Reached.within {config : Config Float Float32} (hadmitted : config.Admitted)
    {b : Bracket (Server Float)} (h : Reached (H := H) config b) :
    Within config.step b.state.accumulator.residual := by
  induction h with
  | start => exact fun hlt => absurd hlt (by decide +kernel)
  | query _ hsettings hanswer ih =>
    unfold Server.query Bracket.queryIn at hanswer
    obtain ⟨⟨_, b'⟩, hquery, hends⟩ := bind_eq_ok_iff.mp hanswer
    cases hends
    have hcarried : b'.alone.state.accumulator = _ := (carried_of_query hquery).2
    exact hcarried ▸ within_carried hadmitted hsettings ih
  | run _ hsettings hrun ih =>
    obtain ⟨found, b', htrace, -, rfl⟩ := Bracket.runIn_eq_ok_iff.mp hrun
    have hcarried : b'.alone.state.accumulator = _ := carried_of_trace htrace
    exact hcarried ▸ within_carried hadmitted hsettings ih

/-! ## The wait -/

/-- The part of a tick that has passed. -/
def passed (residual : Float) : Float := if 0 < residual then residual else 0

/-- The part that has passed is a number of seconds, not negative and less than a step. -/
theorem passed_bounds {step residual : Float} (hpos : 0 < (ofFloat step).toRat)
    (h : Within step residual) :
    (passed residual).isFinite ∧ 0 ≤ (ofFloat (passed residual)).toRat ∧
      (ofFloat (passed residual)).toRat < (ofFloat step).toRat := by
  unfold passed
  split_ifs with hlt
  · obtain ⟨hfinite, hless⟩ := h hlt
    exact ⟨hfinite, ((ofBits_zero_lt_iff hfinite).mp hlt).le, hless⟩
  · have hzero : (ofFloat 0).toRat = 0 := by decide +kernel
    exact ⟨by decide +kernel, hzero.ge, hzero ▸ hpos⟩

section Delay

variable {φ : Type} {config : Config Float φ}

theorem nextFrameDelay_of_busyWait (h : config.pacing = .busyWait) (s : Server Float) :
    s.nextFrameDelay config = .ok none := by
  unfold nextFrameDelay
  rw [h]

theorem nextFrameDelay_of_sleep (h : config.pacing = .sleep) (s : Server Float) :
    s.nextFrameDelay config = (do
      let elapsed ← Duration.ofSeconds (passed s.accumulator.residual)
      return some ((← config.tickDuration).saturatingSub elapsed)) := by
  unfold nextFrameDelay
  rw [h]
  rfl

end Delay

/-- With settings that are accepted, and whatever the frames were, a tick of less than `2 ^ 64`
seconds has a duration, and a host that sleeps waits for no longer than that: for what is missing
to it. A longer tick has none, and to ask for the wait is a fault then. -/
theorem delay_within_tick {config : Config Float Float32} (hadmitted : config.Admitted)
    {b : Bracket (Server Float)} (hreached : Reached (H := H) config b) :
    ((ofFloat config.step).toRat < 2 ^ 64 →
      ∃ tick, config.tickDuration = .ok tick ∧
        IsNearest ((ofFloat config.step).toRat * Duration.perSecond) tick.nanos ∧
        (config.pacing = .busyWait → b.state.nextFrameDelay config = .ok none) ∧
        (config.pacing = .sleep → ∃ delay elapsed,
          b.state.nextFrameDelay config = .ok (some delay) ∧ delay.nanos ≤ tick.nanos ∧
          delay.nanos + elapsed = tick.nanos ∧
          IsNearest ((ofFloat (passed b.state.accumulator.residual)).toRat * Duration.perSecond)
            elapsed)) ∧
    (2 ^ 64 ≤ (ofFloat config.step).toRat →
      config.tickDuration = .error .durationTooBig ∧
        (config.pacing = .busyWait → b.state.nextFrameDelay config = .ok none) ∧
        (config.pacing = .sleep → b.state.nextFrameDelay config = .error .durationTooBig)) := by
  obtain ⟨hfinite, hpos⟩ := hadmitted.step_pos
  obtain ⟨hpassed, hnonneg, hless⟩ := passed_bounds hpos (hreached.within hadmitted)
  refine ⟨fun hlt => ?_, fun hle => ?_⟩
  · obtain ⟨tick, htick, hnearest⟩ := Duration.ofSeconds_eq_ok hfinite hpos.le hlt
    obtain ⟨elapsed, helapsed, hnearest'⟩ :=
      Duration.ofSeconds_eq_ok hpassed hnonneg (hless.trans hlt)
    have htick : config.tickDuration = .ok tick := htick
    have hle : elapsed.nanos ≤ tick.nanos :=
      hnearest'.le_of_lt hnearest (mul_lt_mul_of_pos_right hless Duration.perSecond_pos)
    refine ⟨tick, htick, hnearest, fun hbusy => nextFrameDelay_of_busyWait hbusy _,
      fun hsleep => ⟨tick.saturatingSub elapsed, elapsed.nanos, ?_, Nat.sub_le _ _,
        Nat.sub_add_cancel hle, hnearest'⟩⟩
    rw [nextFrameDelay_of_sleep hsleep, helapsed, ok_bind, htick]
    rfl
  · have htick : config.tickDuration = .error .durationTooBig :=
      Duration.ofSeconds_eq_error hfinite hpos.le hle
    refine ⟨htick, fun hbusy => nextFrameDelay_of_busyWait hbusy _, fun hsleep => ?_⟩
    rw [nextFrameDelay_of_sleep hsleep]
    -- the part that has passed may be too long itself
    rcases lt_or_ge (ofFloat (passed b.state.accumulator.residual)).toRat (2 ^ 64) with hlt | hge
    · obtain ⟨elapsed, helapsed, -⟩ := Duration.ofSeconds_eq_ok hpassed hnonneg hlt
      rw [helapsed, ok_bind, htick]
      rfl
    · rw [Duration.ofSeconds_eq_error hpassed hnonneg hge]
      rfl

end Server

/-- The standard settings with another tick length, for a host that sleeps. -/
def Config.slowed (step : UInt64) : Config Float Float32 :=
  { Config.standard with step := Float.ofBits step, pacing := .sleep }

namespace Server

/-- On both sides of the limit: `2 ^ 64 - 2 ^ 11` seconds, and `2 ^ 64`. -/
theorem delay_within_tick_limit :
    ((Config.slowed 0x43efffffffffffff).validate = .ok () ∧
      ∃ tick delay, (Config.slowed 0x43efffffffffffff).tickDuration = .ok tick ∧
        start.nextFrameDelay (Config.slowed 0x43efffffffffffff) = .ok (some delay) ∧
        delay.nanos ≤ tick.nanos) ∧
      (Config.slowed 0x43f0000000000000).validate = .ok () ∧
      (Config.slowed 0x43f0000000000000).tickDuration = .error .durationTooBig ∧
      start.nextFrameDelay (Config.slowed 0x43f0000000000000) = .error .durationTooBig := by
  have hbelow : (Config.slowed 0x43efffffffffffff).validate = .ok () := by rfl
  have hlimit : (Config.slowed 0x43f0000000000000).validate = .ok () := by rfl
  obtain ⟨tick, htick, -, -, hdelay⟩ :=
    (delay_within_tick (H := TallyHost Float) (.checked hbelow) .start).1 (by decide +kernel)
  obtain ⟨delay, -, hdelay, hle, -⟩ := hdelay rfl
  obtain ⟨htick', -, hdelay'⟩ :=
    (delay_within_tick (H := TallyHost Float) (.checked hlimit) .start).2 (by decide +kernel)
  exact ⟨⟨hbelow, tick, delay, htick, hdelay, hle⟩, hlimit, htick', hdelay' rfl⟩

end Server

end Metronome
