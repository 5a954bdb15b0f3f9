import Metronome.Proofs.Chronicle
import Metronome.Proofs.Prediction.Reachable

/-!
# Skipped frames

A driver that skips a frame has planned it by then: the server has taken its ticks out of the
elapsed time, the prediction has collected its replay points and seeded its last full tick, and the
presentation has moved the position that it measures from. What is left of this is little
(`skipped_frame_disturbs_nothing`). The world is as it was but for one event that says why, and so
are the predicted entities. The prediction keeps what was recorded for it only while there is no
confirmed tick; if it finds nothing to replay, its last full tick is not older than the target
afterwards, so that no tick is passed over (`Prediction.Declined.caughtUp`). The presentation keeps
its position unless the confirmed tick is lost.
-/

namespace Metronome

open Tick

variable {τ φ H : Type}

/-- The driver whose reason it is. -/
def SkipReason.driver : SkipReason → Driver
  | noSteps => .server
  | noConfirmedTick => .prediction
  | noPredictedGhost => .prediction
  | nothingToReplay => .prediction
  | nonPositiveDelta => .presentation

/-! ## The server -/

namespace Server

variable [Seconds τ] [Fraction φ] [Host H τ]

/-- A frame of the server in which no body runs is skipped for want of a batch. -/
theorem turn_of_found_nil {s : Server τ} {w : World τ φ H}
    {body : World τ φ H → Except Fault (World τ φ H)}
    {turn : Bracket.Turn (Server τ) (World τ φ H)} (hrun : run (.idle s) w body = .ok turn)
    (hfound : turn.found = []) :
    turn = ⟨.idle (s.skipped w), w.record (.skipped .server .noSteps), []⟩ := by
  obtain ⟨found, b', htrace, -, rfl⟩ := Bracket.runIn_eq_ok_iff.mp hrun
  cases htrace with
  | declined hq =>
    by_cases hnone : (s.planned w).total = 0
    · cases (query_idle_of_eq_zero hnone).symm.trans hq
      rfl
    · cases (query_idle_of_ne_zero hnone).symm.trans hq
  | ran => cases hfound

end Server

/-! ## Prediction -/

namespace Prediction

variable [Fraction φ]

/-- What a frame that is skipped for a reason leaves of the driver. -/
structure Declined (s : Prediction τ φ) (c : Scene τ φ H) (reason : SkipReason)
    (s' : Prediction τ φ) : Prop where
  driver_eq : reason.driver = .prediction
  /-- Without a confirmed tick everything is kept. -/
  unconfirmed : reason = .noConfirmedTick → c.world.confirmed.isValid = false ∧ s' = s
  /-- Without a predicted entity everything is forgotten. -/
  lacking : reason = .noPredictedGhost →
    LacksGhost c ∧ s'.history = History.empty ∧ s'.lastFull = Tick.invalid
  /-- Otherwise the history is used up. A last full tick that is missing or past the history gives
  way to the target, and another one is not older than the target. -/
  caughtUp : reason = .nothingToReplay → s'.history = History.empty ∧
    (s.Sound → s.Close c →
      if s.lastFull.isValid = false ∨
          c.world.config.history.toNat < c.world.confirmed.tick.distance s.lastFull then
        s'.lastFull = c.world.confirmed.target
      else s'.lastFull = s.lastFull ∧ c.world.confirmed.target.distance s.lastFull ≤ 0)

variable [Seconds τ] [Clock τ φ] {s s' : Prediction τ φ} {c : Scene τ φ H}

omit [Seconds τ] [Clock τ φ] in
/-- A last full tick that the target is ahead of is a replay point, unless it is past the history.
So a frame without another point than the target has caught up with it. -/
theorem Plan.target_distance_lastFull_le {oldest : Tick}
    (hplan : s.Plan c oldest [c.world.confirmed.target]) (hs : s.Sound)
    (hc : c.world.confirmed.tick.OnCircle) (hv : s.lastFull.isValid = true)
    (hreach : c.world.confirmed.tick.distance s.lastFull ≤ c.world.config.history.toNat) :
    c.world.confirmed.target.distance s.lastFull ≤ 0 := by
  by_contra hahead
  have hpos : 0 < c.world.confirmed.target.distance s.lastFull := Int.not_le.mp hahead
  have hbehind : s.lastFull.distance c.world.confirmed.target =
      -c.world.confirmed.target.distance s.lastFull :=
    distance_comm (Confirmed.onCircle_target hc) (hs.lastFull.onCircle hv) (by omega)
  have hbasis : s.lastFull ∈ s.basisOf c := Or.inr (Or.inr ⟨rfl, hv, hpos⟩)
  have hmem : s.lastFull ∈ [c.world.confirmed.target] :=
    (hplan.mem_iff _).mpr (Or.inl ⟨hbasis, by omega, hreach⟩)
  rw [List.mem_singleton.mp hmem, distance_self] at hpos
  omega

/-- What is left of the last full tick by a frame that finds nothing to replay. -/
theorem lastFull_of_nothingToReplay (hs : s.Sound) (hc : c.world.confirmed.tick.OnCircle)
    (hg : ¬LacksGhost c) (hn : s.Close c)
    (h : wantsEntry (s, c) = .ok (skip .nothingToReplay s' c)) :
    if s.lastFull.isValid = false ∨
        c.world.config.history.toNat < c.world.confirmed.tick.distance s.lastFull then
      s'.lastFull = c.world.confirmed.target
    else s'.lastFull = s.lastFull ∧ c.world.confirmed.target.distance s.lastFull ≤ 0 := by
  obtain ⟨oldest, start, near, hplan, hroute, hentry⟩ :=
    exists_near_entry hs hc hg (hn.noneFar hc)
  have hsame := hentry.symm.trans h
  by_cases hnone : near = [] ∧ c.world.confirmed.isPartial = false
  · rw [if_pos hnone] at hsame
    obtain rfl : s.planned c = s' := by
      cases hsame
      rfl
    obtain rfl := hnone.1
    obtain rfl : start = c.world.confirmed.target := Option.some.inj hroute.last
    cases hv : s.lastFull.isValid with
    | false =>
      rw [if_pos (Or.inl rfl)]
      simp [planned, seeded, hv]
    | true =>
      have hseed : seeded s.lastFull c.world.confirmed.target = s.lastFull := if_pos hv
      by_cases hpast : c.world.config.history.toNat < c.world.confirmed.tick.distance s.lastFull
      · rw [if_pos (Or.inr hpast)]
        simp [planned, isStale, hseed, hpast]
      · have hnot : ¬(true = false ∨
            c.world.config.history.toNat < c.world.confirmed.tick.distance s.lastFull) := by
          simp [hpast]
        rw [if_neg hnot]
        exact ⟨by simp [planned, isStale, hseed, hpast],
          hplan.target_distance_lastFull_le hs hc hv (Int.not_lt.mp hpast)⟩
  · rw [if_neg hnone] at hsame
    cases hsame

/-- A frame that is declined is skipped for a reason. -/
theorem declined_of_wantsEntry (hb : c.world.confirmed.isValid = true → c.world.confirmed.Built)
    {x : Prediction τ φ × Scene τ φ H} (h : wantsEntry (s, c) = .ok (false, x)) :
    ∃ reason s', s.Declined c reason s' ∧ (false, x) = skip reason s' c := by
  by_cases hv : c.world.confirmed.isValid = true
  · by_cases hg : LacksGhost c
    · have hx := (Except.ok.inj ((wantsEntry_of_lacksGhost hv hg).symm.trans h)).symm
      exact ⟨.noPredictedGhost, _, ⟨rfl, nofun, fun _ => ⟨hg, rfl, rfl⟩, nofun⟩, hx⟩
    · have hplan := (wantsEntry_eq_plan hv hg).symm.trans h
      rcases skips_or_begins_of_plan hplan with ⟨s', hempty, hx⟩ | ⟨_, _, _, _, _, -, -, hbegins⟩
      · refine ⟨.nothingToReplay, s', ⟨rfl, nofun, nofun, fun _ => ⟨hempty, fun hs hn => ?_⟩⟩, hx⟩
        exact lastFull_of_nothingToReplay hs ((hb hv).onCircle hv) hg hn (hx ▸ h)
      · obtain ⟨_, -, hbegins⟩ := bind_eq_ok_iff.mp hbegins
        cases hbegins
  · have hnone : c.world.confirmed.isValid = false := by simpa using hv
    have hx := (Except.ok.inj ((wantsEntry_of_not_isValid hnone).symm.trans h)).symm
    exact ⟨.noConfirmedTick, s, ⟨rfl, fun _ => ⟨hnone, rfl⟩, nofun, nofun⟩, hx⟩

/-- A frame of the prediction in which no body runs is skipped. -/
theorem turn_of_found_nil [Host H τ] {body : Scene τ φ H → Except Fault (Scene τ φ H)}
    (hb : c.world.confirmed.isValid = true → c.world.confirmed.Built)
    {turn : Bracket.Turn (Prediction τ φ) (Scene τ φ H)}
    (hrun : run (.idle s) c body = .ok turn) (hfound : turn.found = []) :
    ∃ reason s', s.Declined c reason s' ∧ turn = ⟨.idle s', (skip reason s' c).2.2, []⟩ := by
  cases run_eq_ok_iff.mp hrun with
  | skipped hdeclines =>
    obtain ⟨reason, s', hdeclined, hx⟩ := declined_of_wantsEntry hb hdeclines
    cases hx
    exact ⟨reason, _, hdeclined, rfl⟩
  | @burst s₀ _ c₀ _ _ _ hentry hcourse =>
    have hmore := (wantsMore_prepared s₀ c₀).trans (begins_of_wantsEntry hentry).2
    cases hcourse with
    | done hends => cases hmore.symm.trans hends
    | leg => cases hfound

end Prediction

/-! ## Presentation -/

namespace Presentation

variable [Seconds τ] [Fraction φ] [Clock τ φ] [Host H τ]

/-- A frame of the presentation in which no body runs does not move forward. It measures nothing,
but it loses a position that there is no confirmed tick for. -/
theorem turn_of_found_nil {s : Presentation τ φ} {w : World τ φ H}
    {body : World τ φ H → Except Fault (World τ φ H)}
    {turn : Bracket.Turn (Presentation τ φ) (World τ φ H)}
    (hb : w.confirmed.isValid = true → w.confirmed.Built)
    (hrun : run (.idle s) w body = .ok turn) (hfound : turn.found = []) :
    turn = ⟨.idle { s with previous := if w.Shows then s.previous else Confirmed.invalid },
      w.record (.skipped .presentation .nonPositiveDelta), []⟩ := by
  have hcircle : w.Shows → w.confirmed.tick.OnCircle := fun h => (hb h.2).onCircle h.2
  obtain ⟨pending, now, hplan, hprevious⟩ : ∃ pending now,
      plan s.previous w = .ok (pending, now) ∧
        (if pending.tick.isValid then s.previous else now) =
          if w.Shows then s.previous else Confirmed.invalid := by
    by_cases hshows : w.Shows
    · obtain ⟨now, hnow, hvalid, -⟩ := Confirmed.exists_snap (hcircle hshows) w.config.threshold
      cases hv : s.previous.isValid with
      | false =>
        exact ⟨_, _, plan_of_first hshows hnow hv, by simp [real, hvalid.isValid, hshows]⟩
      | true =>
        obtain ⟨batch, hplan⟩ := exists_plan_of_measured hshows hnow hvalid.isValid hv
        exact ⟨_, _, hplan, by simp [hvalid.isValid, hshows]⟩
    · exact ⟨_, _, plan_of_not_shows s.previous hshows, by simp [real, hshows]⟩
  rcases Bracket.runIn_once_cases hrun with
    ⟨s', w', hwants, rfl⟩ | ⟨_, _, _, _, _, _, -, -, -, -, rfl⟩
  · by_cases hpos : 0 < pending.delta
    · cases (wantsEntry_of_pos hplan hpos).symm.trans hwants
    · have hdeclines := wantsEntry_of_not_pos hplan hpos
      rw [hprevious] at hdeclines
      cases hdeclines.symm.trans hwants
      rfl
  · cases hfound

end Presentation

/-! ## Sessions -/

/-- Only a frame without invocations says that it was skipped. -/
theorem Chronicle.length_eq_zero_iff {d : Driver} {es : List (Event τ φ)}
    {is : List (Invocation τ φ)} (h : Chronicle d es is) :
    is.length = 0 ↔ ∃ d reason, Event.skipped d reason ∈ es := by
  cases h with
  | skipped reason => exact iff_of_true rfl ⟨d, reason, List.mem_singleton_self _⟩
  | burst _ tick n ran => exact iff_of_false (fun h => ran (List.length_eq_zero_iff.mp h)) (by simp)
  | single => simp

namespace Session

variable [Seconds τ] [Fraction φ] [Clock τ φ] [Host H τ]

/-- What a skipped frame of a driver leaves of a session. -/
structure Undisturbed (s s' : Session τ φ H) (d : Driver) (reason : SkipReason) : Prop where
  driver_eq : reason.driver = d
  /-- The world is the same with one event more. -/
  world_eq : s'.world = s.world.record (.skipped d reason)
  events_eq : s'.world.events = s.world.events ++ [.skipped d reason]
  ghosts_eq : s'.ghosts = s.ghosts
  /-- The other drivers are what they were. -/
  others : (d ≠ .server → s'.server = s.server) ∧ (d ≠ .prediction → s'.prediction = s.prediction) ∧
    (d ≠ .presentation → s'.presentation = s.presentation)
  declined : d = .prediction →
    s.prediction.state.Declined ⟨s.world, s.ghosts⟩ reason s'.prediction.state
  position : d = .presentation → s'.presentation.state.previous =
    if s.world.Shows then s.presentation.state.previous else Confirmed.invalid

/-- A call of a driver in which no body runs leaves the session undisturbed. -/
theorem undisturbed_of_act {s s' : Session τ φ H} {op : Op τ φ H} {reply : Reply τ φ H}
    (hs : s.Idle) (h : s.act op = .ok (reply, s'))
    (hb : s.world.confirmed.isValid = true → s.world.confirmed.Built) {d : Driver}
    (hd : op.driver? = some d) (hnone : reply.count = 0) : ∃ reason, Undisturbed s s' d reason := by
  obtain ⟨world, ghosts, ⟨a, server⟩, ⟨a', prediction⟩, ⟨a'', presentation⟩⟩ := s
  obtain ⟨rfl, rfl, rfl⟩ : a = false ∧ a' = false ∧ a'' = false :=
    ⟨hs.server, hs.prediction, hs.presentation⟩
  cases op with
  | serve body =>
    cases hd
    obtain ⟨turn, hrun, h⟩ := bind_eq_ok_iff.mp h
    cases h
    obtain rfl := Server.turn_of_found_nil hrun (List.length_eq_zero_iff.mp hnone)
    exact ⟨.noSteps, rfl, rfl, World.events_record world _, rfl,
      ⟨nofun, fun _ => rfl, fun _ => rfl⟩, nofun, nofun⟩
  | predict body =>
    cases hd
    obtain ⟨turn, hrun, h⟩ := bind_eq_ok_iff.mp h
    cases h
    obtain ⟨reason, s', hdeclined, rfl⟩ :=
      Prediction.turn_of_found_nil hb hrun (List.length_eq_zero_iff.mp hnone)
    exact ⟨reason, hdeclined.driver_eq, rfl, World.events_record world _, rfl,
      ⟨fun _ => rfl, nofun, fun _ => rfl⟩, fun _ => hdeclined, nofun⟩
  | present body =>
    cases hd
    obtain ⟨turn, hrun, h⟩ := bind_eq_ok_iff.mp h
    cases h
    obtain rfl := Presentation.turn_of_found_nil hb hrun (List.length_eq_zero_iff.mp hnone)
    exact ⟨.nonPositiveDelta, rfl, rfl, World.events_record world _, rfl,
      ⟨fun _ => rfl, fun _ => rfl, nofun⟩, nofun, fun _ => rfl⟩
  | _ => cases hd

/-- A skipped frame disturbs nothing, whichever driver skips it and why. A call of a driver skips
its frame if no body runs, and with a body that writes nothing it says so in the log exactly then.
The world is then the same with that one event more, every predicted entity is what it was, and of
the driver there is left what `Prediction.Declined` and the position of the presentation tell. -/
theorem skipped_frame_disturbs_nothing {c : Call τ φ H} (hs : c.before.Idle)
    (hact : c.before.act c.op = .ok (c.reply, c.after))
    (hb : c.before.world.confirmed.isValid = true → c.before.world.confirmed.Built) {d : Driver}
    (hd : c.op.driver? = some d) :
    (c.op.KeepsRecord → (c.reply.count = 0 ↔ ∃ d reason, Event.skipped d reason ∈ c.tale)) ∧
      (c.reply.count = 0 → ∃ reason, Undisturbed c.before c.after d reason) := by
  refine ⟨fun hkeeps => ?_, undisturbed_of_act hs hact hb hd⟩
  obtain ⟨is, hcount, hfaithful⟩ := (Call.told hs hact hkeeps).frame d hd
  rw [hcount]
  exact hfaithful.chronicle.length_eq_zero_iff

/-- A session with one predicted entity, whose prediction is two ticks ahead of the confirmed tick:
it fell back. -/
def fallenBack : Session Rat Rat (TallyHost Rat) where
  world := { World.start Config.sixty TallyHost.empty with confirmed := .whole (ofIndex 10) }
  ghosts := Ghosts.empty.spawn (EntityId.handedOut 0)
  server := .idle Server.start
  prediction := .idle { (Prediction.initial.recorded [] [ofIndex 9]) with lastFull := ofIndex 12 }
  presentation := .idle Presentation.start

/-- There is nothing to replay for it, and the last full tick stays where it is. -/
theorem skipped_frame_disturbs_nothing_fallenBack : ∃ reply s',
    fallenBack.act (.predict .ok) = .ok (reply, s') ∧
      Undisturbed fallenBack s' .prediction .nothingToReplay ∧
      s'.prediction.state.history = History.empty ∧ s'.prediction.state.lastFull = ofIndex 12 := by
  have hcount : (fallenBack.act (.predict .ok)).toOption.map (fun x => x.1.count) = some 0 := by
    decide +kernel
  cases hact : fallenBack.act (.predict .ok) with
  | error f =>
    rw [hact] at hcount
    cases hcount
  | ok x =>
    obtain ⟨reply, s'⟩ := x
    rw [hact] at hcount
    have hb : fallenBack.world.confirmed.Built := .whole (Or.inr (OnCircle.ofIndex 10))
    let c : Call Rat Rat (TallyHost Rat) := ⟨fallenBack, .predict .ok, reply, s'⟩
    have hidle : c.before.Idle := ⟨rfl, rfl, rfl⟩
    obtain ⟨reason, h⟩ : ∃ reason, Undisturbed fallenBack s' .prediction reason :=
      (skipped_frame_disturbs_nothing hidle hact (fun _ => hb) rfl).2 (Option.some.inj hcount)
    have hdeclined := h.declined rfl
    -- there is a confirmed tick and a predicted entity, so one reason is left
    cases reason with
    | noSteps | nonPositiveDelta => cases h.driver_eq
    | noConfirmedTick => exact absurd (hdeclined.unconfirmed rfl).1 (by decide)
    | noPredictedGhost => exact absurd (hdeclined.lacking rfl).1 (by decide)
    | nothingToReplay =>
      obtain ⟨hempty, hlast⟩ := hdeclined.caughtUp rfl
      have hinitial : (Prediction.initial.recorded [] [ofIndex 9] : Prediction Rat Rat).Sound :=
        Prediction.sound_recorded_ofIndex [] [9]
      have hs : fallenBack.prediction.state.Sound :=
        ⟨hinitial.history, Or.inr (OnCircle.ofIndex 12)⟩
      have hn : fallenBack.prediction.state.Close ⟨fallenBack.world, fallenBack.ghosts⟩ :=
        ⟨by decide, by decide⟩
      have hkept := hlast hs hn
      rw [if_neg (by decide)] at hkept
      exact ⟨reply, s', rfl, h, hempty, hkept.1⟩

end Session

end Metronome
