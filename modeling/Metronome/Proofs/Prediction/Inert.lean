import Metronome.Proofs.Accumulator
import Metronome.Proofs.Prediction.Budgets

/-!
# Applied ticks that are dropped

A recorded tick that is ahead of the target or past the history is no replay point itself. It takes
part in the plan all the same: the walk over the inputs begins after the oldest tick to start from,
dropped or not, or after the edge of the history if that tick lies past it.

A burst depends on what was recorded through its replay points only (`run_eq_of_pointsOf`). So
dropped ticks are inert, but for one case: a tick past the history moves the begin of the walk back
to the edge of the history, and inputs between the edge and the oldest tick to start from, which
would have been passed over, get replay points (`dropped_points_inert`).
-/

namespace Metronome

open Tick

variable {τ φ H : Type}

namespace Prediction

variable [Fraction φ] {s : Prediction τ φ} {c : Scene τ φ H} {oldest : Tick} {t : Tick}

/-! ## Points told by their distance -/

/-- Between a tick that is not ahead of the target and the target lie the ticks whose distance from
the confirmed tick lies between theirs. -/
theorem newer_iff {confirmed : Confirmed φ} (hc : confirmed.tick.OnCircle) {e n : Tick}
    (he : e.OnCircle) (hn : n.OnCircle) (hlo : confirmed.lag ≤ confirmed.tick.distance e) :
    0 < n.distance e ∧ n.distance confirmed.target ≤ 0 ↔
      confirmed.lag ≤ confirmed.tick.distance n ∧
        confirmed.tick.distance n < confirmed.tick.distance e := by
  have hg := Confirmed.onCircle_target hc
  have hlag := Confirmed.distance_target hc
  have := confirmed.lag_nonneg
  have := confirmed.lag_le_one
  obtain ⟨k, hk⟩ := distance_triangle hc hn he
  obtain ⟨k', hk'⟩ := distance_triangle hc hn hg
  have := distance_lt confirmed.tick e
  have := distance_lt confirmed.tick n
  have := le_distance confirmed.tick n
  have := distance_lt n e
  have := le_distance n e
  have := distance_lt n confirmed.target
  have := le_distance n confirmed.target
  omega

/-- A tick that is not ahead of the target by its distance is not newer either. -/
theorem distance_target_nonpos {confirmed : Confirmed φ} (hc : confirmed.tick.OnCircle)
    (ht : t.OnCircle) (hlo : confirmed.lag ≤ confirmed.tick.distance t) :
    t.distance confirmed.target ≤ 0 := by
  have hlag := Confirmed.distance_target hc
  have := confirmed.lag_nonneg
  obtain ⟨k, hk⟩ := distance_triangle hc ht (Confirmed.onCircle_target hc)
  have := distance_lt confirmed.tick t
  have := distance_lt t confirmed.target
  have := le_distance t confirmed.target
  omega

theorem exists_isOldest (hs : s.Sound) (hc : c.world.confirmed.tick.OnCircle) :
    ∃ oldest, IsOldest c.world.confirmed.tick (s.basisOf c) oldest := by
  obtain ⟨_, oldest, _, -, -, hold, -⟩ :=
    exists_replayPoints hc (one_le_history c.world.config) (hs.heard c).applied
      (hs.heard c).inputs hs.lastFull
  exact ⟨oldest, hold⟩

/-- A point that is neither ahead of the target nor past the history. -/
def InReach (c : Scene τ φ H) (t : Tick) : Prop :=
  t.distance c.world.confirmed.target ≤ 0 ∧
    c.world.confirmed.tick.distance t ≤ c.world.config.history.toNat

/-- The inputs that get a replay point lie between the target and the oldest tick to start from, or
the edge of the history. -/
theorem mem_pointsOf_iff (hs : s.Sound) (hc : c.world.confirmed.tick.OnCircle)
    (hold : IsOldest c.world.confirmed.tick (s.basisOf c) oldest) :
    t ∈ s.pointsOf c ↔ t ∈ s.basisOf c ∧ InReach c t ∨ ∃ n ∈ (s.heard c).inputs.ticks,
      c.world.confirmed.lag ≤ c.world.confirmed.tick.distance n ∧
        c.world.confirmed.tick.distance n <
          min (c.world.confirmed.tick.distance oldest) c.world.config.history.toNat ∧
        t = n.shiftBack 1 := by
  have hoc := hs.onCircle_basisOf hc hold.1
  have hlag : c.world.confirmed.lag ≤ c.world.confirmed.tick.distance oldest := by
    rw [← Confirmed.distance_target hc]
    exact hold.2 _ (target_mem_basisOf s c)
  have hedge := distance_edge (o := oldest) hc c.world.config.history
  have hwalk : ∀ n ∈ (s.heard c).inputs.ticks,
      0 < n.distance (edge c.world.confirmed.tick oldest c.world.config.history) ∧
        n.distance c.world.confirmed.target ≤ 0 ↔
      c.world.confirmed.lag ≤ c.world.confirmed.tick.distance n ∧
        c.world.confirmed.tick.distance n <
          min (c.world.confirmed.tick.distance oldest) c.world.config.history.toNat := by
    intro n hn
    rw [← hedge]
    exact newer_iff hc (onCircle_edge hc hoc _) ((hs.heard c).inputs n hn)
      (target_distance_edge hc hoc (one_le_history c.world.config) hlag).2
  rw [hold.mem_pointsOf hs hc]
  refine or_congr Iff.rfl (exists_congr fun n => and_congr_right fun hn => ?_)
  rw [← and_assoc, ← and_assoc, hwalk n hn]

/-! ## Points and bursts -/

section Runs

variable [Seconds τ] [Clock τ φ] [Host H τ]

/-- What was recorded for a burst matters through its replay points only. -/
theorem run_eq_of_pointsOf (s : Prediction τ φ) {h h' : History}
    (hs : (s.withHistory h).Sound) (hs' : (s.withHistory h').Sound)
    (hc : c.world.confirmed.tick.OnCircle) (body : Scene τ φ H → Except Fault (Scene τ φ H))
    (hsame : ∀ t, t ∈ (s.withHistory h).pointsOf c ↔ t ∈ (s.withHistory h').pointsOf c) :
    run (.idle (s.withHistory h)) c body = run (.idle (s.withHistory h')) c body := by
  by_cases hg : LacksGhost c
  · rw [run_of_lacksGhost hc.isValid hg body, run_of_lacksGhost hc.isValid hg body]
    rfl
  obtain ⟨_, start, ahead, hplan, hentry⟩ := exists_plan hs hc hg
  obtain ⟨_, start', ahead', hplan', hentry'⟩ := exists_plan hs' hc hg
  obtain ⟨rfl, rfl⟩ := List.cons_eq_cons.mp <|
    TickSet.eq_of_descending hplan.descending hplan'.descending fun t =>
      (hplan.mem_pointsOf hs hc).symm.trans ((hsame t).trans (hplan'.mem_pointsOf hs' hc))
  have hquery : Bracket.query .repeatWhile hooks ((Bracket.idle (s.withHistory h)).beside c) =
      Bracket.query .repeatWhile hooks ((Bracket.idle (s.withHistory h')).beside c) := by
    rw [Bracket.query_of_inactive rfl, Bracket.query_of_inactive rfl]
    show (wantsEntry (s.withHistory h, c) >>= _) = (wantsEntry (s.withHistory h', c) >>= _)
    rw [hentry, hentry']
    rfl
  rw [run, run, Bracket.runIn, Bracket.runIn, Bracket.run_congr (fun _ _ => rfl) hquery]

end Runs

/-! ## More applied ticks -/

omit [Fraction φ] in
theorem Sound.recorded_applied (hs : s.Sound) {ts : List Tick} (hts : ∀ u ∈ ts, u.OnCircle) :
    (s.recorded ts []).Sound :=
  hs.recorded (fun u hu => Or.inr (hts u hu)) fun _ h => absurd h List.not_mem_nil

omit [Fraction φ] in
theorem inputs_heard_recorded (s : Prediction τ φ) (c : Scene τ φ H) (ts : List Tick) :
    ((s.recorded ts []).heard c).inputs = (s.heard c).inputs := by
  unfold heard
  split <;> rfl

/-- Recorded ticks are ticks to start from, if they are heard. -/
theorem mem_basisOf_recorded (hg : c.ghosts.isEmpty = false) {ts : List Tick}
    (hts : ∀ u ∈ ts, u.OnCircle) :
    t ∈ (s.recorded ts []).basisOf c ↔ t ∈ s.basisOf c ∨ t ∈ ts := by
  have hmem : t ∈ (s.history.applied.insertAll ts).ticks ↔ t ∈ s.history.applied.ticks ∨ t ∈ ts :=
    TickSet.mem_insertAll fun u hu => (hts u hu).isValid
  simp only [basisOf, basis, heard, hg, Bool.false_eq_true, if_false, recorded, hmem,
    Set.mem_ofPred_eq]
  grind

/-- The replay points with more applied ticks. -/
theorem mem_pointsOf_recorded (hs : s.Sound) (hc : c.world.confirmed.tick.OnCircle)
    (hg : c.ghosts.isEmpty = false) {ts : List Tick} (hts : ∀ u ∈ ts, u.OnCircle)
    (hold : IsOldest c.world.confirmed.tick ((s.recorded ts []).basisOf c) oldest) :
    t ∈ (s.recorded ts []).pointsOf c ↔
      (t ∈ s.basisOf c ∨ t ∈ ts) ∧ InReach c t ∨ ∃ n ∈ (s.heard c).inputs.ticks,
        c.world.confirmed.lag ≤ c.world.confirmed.tick.distance n ∧
          c.world.confirmed.tick.distance n <
            min (c.world.confirmed.tick.distance oldest) c.world.config.history.toNat ∧
          t = n.shiftBack 1 := by
  rw [mem_pointsOf_iff (hs.recorded_applied hts) hc hold, mem_basisOf_recorded hg hts,
    inputs_heard_recorded]

/-- An applied tick that is no replay point: it is ahead of the target, or past the history. -/
structure Dropped (c : Scene τ φ H) (t : Tick) : Prop where
  onCircle : t.OnCircle
  out : 0 < t.distance c.world.confirmed.target ∨
    c.world.config.history.toNat < c.world.confirmed.tick.distance t

theorem Dropped.not_inReach (h : Dropped c t) : ¬InReach c t := by
  rintro ⟨hle, hreach⟩
  rcases h.out with hnew | hpast
  · omega
  · omega

/-- Dropped ticks that are all ahead of the target do not change the replay points. -/
theorem pointsOf_recorded_of_ahead (hs : s.Sound) (hc : c.world.confirmed.tick.OnCircle)
    (hg : c.ghosts.isEmpty = false) {ts : List Tick} (hts : ∀ u ∈ ts, Dropped c u)
    (hnear : ∀ u ∈ ts, c.world.confirmed.tick.distance u ≤ c.world.config.history.toNat) :
    t ∈ (s.recorded ts []).pointsOf c ↔ t ∈ s.pointsOf c := by
  have hon := fun u hu => (hts u hu).onCircle
  obtain ⟨oldest, hold⟩ := exists_isOldest hs hc
  obtain ⟨oldest', hold'⟩ := exists_isOldest (hs.recorded_applied hon) hc
  have hlag : c.world.confirmed.lag ≤ c.world.confirmed.tick.distance oldest := by
    rw [← Confirmed.distance_target hc]
    exact hold.2 _ (target_mem_basisOf s c)
  -- none of them is the oldest tick to start from
  have hsame :
      c.world.confirmed.tick.distance oldest' = c.world.confirmed.tick.distance oldest := by
    have hle := hold'.2 oldest ((mem_basisOf_recorded hg hon).mpr (Or.inl hold.1))
    rcases (mem_basisOf_recorded hg hon).mp hold'.1 with h | h
    · have := hold.2 _ h
      omega
    · have hnew : 0 < oldest'.distance c.world.confirmed.target := by
        rcases (hts _ h).out with hnew | hpast
        · exact hnew
        · have := hnear _ h
          omega
      have hlt : ¬c.world.confirmed.lag ≤ c.world.confirmed.tick.distance oldest' := fun hlo => by
        have := distance_target_nonpos hc (hon _ h) hlo
        omega
      omega
  rw [mem_pointsOf_recorded hs hc hg hon hold', mem_pointsOf_iff hs hc hold, hsame]
  refine or_congr_left (and_congr_left fun hreach => or_iff_left fun hmem => ?_)
  exact (hts t hmem).not_inReach hreach

/-- The points before the inputs that come after the edge of the history and not after the oldest
tick to start from. -/
def uncovered (s : Prediction τ φ) (c : Scene τ φ H) (oldest : Tick) : List Tick :=
  ((s.heard c).inputs.ticks.filter fun n =>
    decide (c.world.confirmed.tick.distance oldest ≤ c.world.confirmed.tick.distance n ∧
      c.world.confirmed.tick.distance n < c.world.config.history.toNat)).map (·.shiftBack 1)

omit [Fraction φ] in
theorem mem_uncovered : t ∈ s.uncovered c oldest ↔ ∃ n ∈ (s.heard c).inputs.ticks,
    c.world.confirmed.tick.distance oldest ≤ c.world.confirmed.tick.distance n ∧
      c.world.confirmed.tick.distance n < c.world.config.history.toNat ∧ t = n.shiftBack 1 := by
  simp only [uncovered, List.mem_map, List.mem_filter, decide_eq_true_eq]
  grind

/-- Such a point is in reach, and further behind than the oldest tick to start from. -/
theorem uncovered_reach (hs : s.Sound) (hc : c.world.confirmed.tick.OnCircle)
    (hold : IsOldest c.world.confirmed.tick (s.basisOf c) oldest)
    (hshort : (c.world.config.history.toNat : Int) < 1073741824) (ht : t ∈ s.uncovered c oldest) :
    t.OnCircle ∧ InReach c t ∧
      c.world.confirmed.tick.distance oldest < c.world.confirmed.tick.distance t := by
  have h1 : (1 : UInt32).toNat = 1 := rfl
  obtain ⟨n, hn, hle, hlt, rfl⟩ := mem_uncovered.mp ht
  have hnc := (hs.heard c).inputs n hn
  have hlag : c.world.confirmed.lag ≤ c.world.confirmed.tick.distance oldest := by
    rw [← Confirmed.distance_target hc]
    exact hold.2 _ (target_mem_basisOf s c)
  have := c.world.confirmed.lag_nonneg
  have hback := distance_shiftBack_right (n := 1) hc hnc (by omega)
  refine ⟨hnc.shiftBack 1, ⟨distance_target_nonpos hc (hnc.shiftBack 1) (by omega), ?_⟩, ?_⟩
  · omega
  · omega

/-- No replay point lies that far behind without them. -/
theorem not_mem_pointsOf_of_uncovered (hs : s.Sound) (hc : c.world.confirmed.tick.OnCircle)
    (hold : IsOldest c.world.confirmed.tick (s.basisOf c) oldest)
    (hshort : (c.world.config.history.toNat : Int) < 1073741824)
    (ht : t ∈ s.uncovered c oldest) : t ∉ s.pointsOf c := by
  have h1 : (1 : UInt32).toNat = 1 := rfl
  obtain ⟨-, -, hfar⟩ := uncovered_reach hs hc hold hshort ht
  intro hmem
  rcases (mem_pointsOf_iff hs hc hold).mp hmem with ⟨hb, -⟩ | ⟨n, hn, hlo, hlt, rfl⟩
  · have := hold.2 t hb
    omega
  · have := c.world.confirmed.lag_nonneg
    have hback := distance_shiftBack_right (n := 1) hc ((hs.heard c).inputs n hn) (by omega)
    omega

/-- With a dropped tick past the history the replay points are those that there would be if the
points of the inputs up to the edge of the history were applied ticks. -/
theorem pointsOf_recorded_of_past (hs : s.Sound) (hc : c.world.confirmed.tick.OnCircle)
    (hg : c.ghosts.isEmpty = false) (hold : IsOldest c.world.confirmed.tick (s.basisOf c) oldest)
    {ts : List Tick} (hts : ∀ u ∈ ts, Dropped c u) {u : Tick} (hu : u ∈ ts)
    (hpast : c.world.config.history.toNat < c.world.confirmed.tick.distance u) :
    t ∈ (s.recorded ts []).pointsOf c ↔ t ∈ (s.recorded (s.uncovered c oldest) []).pointsOf c := by
  have hlt := distance_lt c.world.confirmed.tick u
  have hreach : ∀ t ∈ s.uncovered c oldest, _ := fun t =>
    uncovered_reach hs hc hold (t := t) (by omega)
  have hon := fun u hu => (hts u hu).onCircle
  have hon' := fun t ht => (hreach t ht).1
  obtain ⟨first, hfirst⟩ := exists_isOldest (hs.recorded_applied hon) hc
  obtain ⟨first', hfirst'⟩ := exists_isOldest (hs.recorded_applied hon') hc
  have hle := hfirst.2 u ((mem_basisOf_recorded hg hon).mpr (Or.inr hu))
  have hle' := hfirst'.2 oldest ((mem_basisOf_recorded hg hon').mpr (Or.inl hold.1))
  have hlag : c.world.confirmed.lag ≤ c.world.confirmed.tick.distance oldest := by
    rw [← Confirmed.distance_target hc]
    exact hold.2 _ (target_mem_basisOf s c)
  rw [mem_pointsOf_recorded hs hc hg hon hfirst, mem_pointsOf_recorded hs hc hg hon' hfirst']
  constructor
  · rintro (⟨hb | hd, hr⟩ | ⟨n, hn, hlo, hlt', rfl⟩)
    · exact Or.inl ⟨Or.inl hb, hr⟩
    · exact absurd hr (hts t hd).not_inReach
    · by_cases hcovered : c.world.confirmed.tick.distance n <
          c.world.confirmed.tick.distance oldest
      · exact Or.inr ⟨n, hn, hlo, by omega, rfl⟩
      · have hmem : n.shiftBack 1 ∈ s.uncovered c oldest :=
          mem_uncovered.mpr ⟨n, hn, by omega, by omega, rfl⟩
        exact Or.inl ⟨Or.inr hmem, (hreach _ hmem).2.1⟩
  · rintro (⟨hb | hd, hr⟩ | ⟨n, hn, hlo, hlt', rfl⟩)
    · exact Or.inl ⟨Or.inl hb, hr⟩
    · obtain ⟨n, hn, hlo, hlt', rfl⟩ := mem_uncovered.mp hd
      exact Or.inr ⟨n, hn, by omega, by omega, rfl⟩
    · exact Or.inr ⟨n, hn, hlo, by omega, rfl⟩

/-- Without entities nothing that is recorded is heard. -/
theorem pointsOf_recorded_of_isEmpty (hg : c.ghosts.isEmpty = true) (ts : List Tick) :
    t ∈ (s.recorded ts []).pointsOf c ↔ t ∈ s.pointsOf c := by
  simp only [pointsOf, basisOf, heard, hg, if_true]
  rfl

variable [Seconds τ] [Clock τ φ] [Host H τ]

/-- Recording applied ticks that are dropped, ahead of the target or past the history, changes
nothing about a frame, unless one of them is past the history and there is an input after the edge
of the history and not after the oldest tick to start from. Then the frame is the one in which the
ticks before all such inputs are applied ticks, and they are replay points that it would not have
had. -/
theorem dropped_points_inert (body : Scene τ φ H → Except Fault (Scene τ φ H)) (hs : s.Sound)
    (hc : c.world.confirmed.tick.OnCircle) {ts : List Tick} (hts : ∀ t ∈ ts, Dropped c t) :
    ∃ oldest, IsOldest c.world.confirmed.tick (s.basisOf c) oldest ∧
      ((∀ t ∈ ts, c.world.confirmed.tick.distance t ≤ c.world.config.history.toNat) ∨
          (∀ n ∈ (s.heard c).inputs.ticks, ¬(c.world.confirmed.tick.distance oldest ≤
              c.world.confirmed.tick.distance n ∧
            c.world.confirmed.tick.distance n < c.world.config.history.toNat)) →
        run (.idle (s.recorded ts [])) c body = run (.idle s) c body) ∧
      ((∃ t ∈ ts, c.world.config.history.toNat < c.world.confirmed.tick.distance t) →
        run (.idle (s.recorded ts [])) c body =
            run (.idle (s.recorded (s.uncovered c oldest) [])) c body ∧
          ∀ t ∈ s.uncovered c oldest, t ∉ s.pointsOf c) := by
  obtain ⟨oldest, hold⟩ := exists_isOldest hs hc
  have hs' := hs.recorded_applied fun t ht => (hts t ht).onCircle
  refine ⟨oldest, hold, fun hinert => ?_, fun ⟨u, hu, hpast⟩ => ?_⟩
  · refine run_eq_of_pointsOf s hs' hs hc body fun t => ?_
    by_cases hg : c.ghosts.isEmpty = true
    · exact pointsOf_recorded_of_isEmpty hg ts
    have hg : c.ghosts.isEmpty = false := by simpa using hg
    by_cases hahead : ∀ u ∈ ts,
        c.world.confirmed.tick.distance u ≤ c.world.config.history.toNat
    · exact pointsOf_recorded_of_ahead hs hc hg hts hahead
    · obtain ⟨u, hu, hpast⟩ : ∃ u ∈ ts,
          (c.world.config.history.toNat : Int) < c.world.confirmed.tick.distance u := by
        simpa using hahead
      have hnone : s.uncovered c oldest = [] :=
        List.eq_nil_iff_forall_not_mem.mpr fun t ht => by
          obtain ⟨n, hn, hle, hlt, -⟩ := mem_uncovered.mp ht
          exact (hinert.resolve_left hahead) n hn ⟨hle, hlt⟩
      have hsame := pointsOf_recorded_of_past (t := t) hs hc hg hold hts hu hpast
      rw [hnone] at hsame
      exact hsame
  · have hlt := distance_lt c.world.confirmed.tick u
    have hshort : (c.world.config.history.toNat : Int) < 1073741824 := by omega
    have hs'' := hs.recorded_applied fun t ht => (uncovered_reach hs hc hold hshort ht).1
    refine ⟨run_eq_of_pointsOf s hs' hs'' hc body fun t => ?_,
      fun t ht => not_mem_pointsOf_of_uncovered hs hc hold hshort ht⟩
    by_cases hg : c.ghosts.isEmpty = true
    · exact (pointsOf_recorded_of_isEmpty hg ts).trans (pointsOf_recorded_of_isEmpty hg _).symm
    · exact pointsOf_recorded_of_past hs hc (by simpa using hg) hold hts hu hpast

/-! ## A client with a short history -/

/-- A client that keeps four ticks of input, at a confirmed tick. -/
def shortHistory (confirmed : Confirmed Rat) : Scene Rat Rat (TallyHost Rat) where
  world := { World.start { Config.sixty with historyTicks := 4 } TallyHost.empty with confirmed }
  ghosts := Ghosts.empty.spawn (EntityId.handedOut 0)

/-- A driver that was done with tick `6` when it got an input. -/
def withInput (input : Tick) : Prediction Rat Rat :=
  { initial with lastFull := ofIndex 6 }.recorded [] [input]

theorem reachable_withInput (i : UInt32) : Reachable (TallyHost Rat) (withInput (ofIndex i)) := by
  have hentry : wantsEntry ((initial : Prediction Rat Rat),
      shortHistory (Confirmed.whole (ofIndex 6))) =
      .ok (skip .nothingToReplay { initial with lastFull := ofIndex 6 }
        (shortHistory (Confirmed.whole (ofIndex 6)))) := rfl
  have hrun : run (.idle initial) (shortHistory (Confirmed.whole (ofIndex 6))) .ok = .ok _ :=
    run_eq_ok_iff.mpr (.skipped hentry)
  refine .recorded (.frame .initial (.whole (Or.inr (OnCircle.ofIndex 6))) hrun rfl)
    ⟨TickSet.onCircle_empty, TickSet.onCircle_empty.insertAll ?_⟩
  simp [Regular, OnCircle.ofIndex]

/-- At tick `8` the tick `1` is past the history and the tick `12` ahead of the target. An input of
tick `7` comes after the tick to start from, and the two ticks are inert. -/
theorem dropped_points_inert_short :
    ∃ turn, run (.idle (withInput (ofIndex 7))) (shortHistory (Confirmed.whole (ofIndex 8))) .ok =
        .ok turn ∧
      run (.idle ((withInput (ofIndex 7)).recorded [ofIndex 1, ofIndex 12] []))
        (shortHistory (Confirmed.whole (ofIndex 8))) .ok = .ok turn := by
  have hs := (reachable_withInput 7).sound
  have hb : (shortHistory (Confirmed.whole (ofIndex 8))).world.confirmed.Built :=
    .whole (Or.inr (OnCircle.ofIndex 8))
  have hn : (withInput (ofIndex 7)).Close (shortHistory (Confirmed.whole (ofIndex 8))) :=
    ⟨by decide, by decide⟩
  obtain ⟨turn, hrun⟩ := exists_turn (fun c => ⟨c, rfl, rfl, rfl⟩) hs hb hn
  have hdropped : ∀ t ∈ [ofIndex 1, ofIndex 12],
      Dropped (shortHistory (Confirmed.whole (ofIndex 8))) t := by
    intro t ht
    rcases List.mem_pair.mp ht with rfl | rfl
    · exact ⟨OnCircle.ofIndex 1, Or.inr (by decide)⟩
    · exact ⟨OnCircle.ofIndex 12, Or.inl (by decide)⟩
  obtain ⟨oldest, hold, hinert, -⟩ := dropped_points_inert .ok hs (OnCircle.ofIndex 8) hdropped
  refine ⟨turn, hrun, (hinert (Or.inr fun n hn => ?_)).trans hrun⟩
  obtain rfl : n = ofIndex 7 := List.mem_singleton.mp hn
  -- the last full tick is behind the input, and the tick to start from is not ahead of it
  have hsix := hold.2 (ofIndex 6) (Or.inr (Or.inr ⟨rfl, rfl, by decide⟩))
  have hdist : (ofIndex 8).distance (ofIndex 7) < (ofIndex 8).distance (ofIndex 6) := by decide
  exact fun h => Int.not_le.mpr (Int.lt_of_lt_of_le hdist hsix) h.1

/-- An input of tick `5` does not matter to a burst from tick `6` to tick `8`. With the dropped
tick `1` it does: the burst begins at tick `4`. -/
theorem dropped_point_not_inert :
    Reachable (TallyHost Rat) (withInput (ofIndex 5)) ∧
      (shortHistory (Confirmed.whole (ofIndex 8))).world.confirmed.Built ∧
      ((withInput (ofIndex 5)).recorded [ofIndex 1] []).Close
        (shortHistory (Confirmed.whole (ofIndex 8))) ∧
      Dropped (shortHistory (Confirmed.whole (ofIndex 8))) (ofIndex 1) ∧
      ∃ turn turn',
        run (.idle (withInput (ofIndex 5))) (shortHistory (Confirmed.whole (ofIndex 8))) .ok =
          .ok turn ∧
        run (.idle ((withInput (ofIndex 5)).recorded [ofIndex 1] []))
          (shortHistory (Confirmed.whole (ofIndex 8))) .ok = .ok turn' ∧
        turn.count = 2 ∧ turn'.count = 4 := by
  have hs := (reachable_withInput 5).sound
  have hs' : ((withInput (ofIndex 5)).recorded [ofIndex 1] []).Sound :=
    hs.recorded_applied (by simp [OnCircle.ofIndex])
  have hb : (shortHistory (Confirmed.whole (ofIndex 8))).world.confirmed.Built :=
    .whole (Or.inr (OnCircle.ofIndex 8))
  have hn : (withInput (ofIndex 5)).Close (shortHistory (Confirmed.whole (ofIndex 8))) :=
    ⟨by decide, by decide⟩
  have hn' : ((withInput (ofIndex 5)).recorded [ofIndex 1] []).Close
      (shortHistory (Confirmed.whole (ofIndex 8))) := ⟨by decide, by decide⟩
  obtain ⟨turn, hrun⟩ := exists_turn (fun c => ⟨c, rfl, rfl, rfl⟩) hs hb hn
  obtain ⟨turn', hrun'⟩ := exists_turn (fun c => ⟨c, rfl, rfl, rfl⟩) hs' hb hn'
  have hpoints : (withInput (ofIndex 5)).ListsPoints (shortHistory (Confirmed.whole (ofIndex 8)))
      (ofIndex 6) [ofIndex 6, ofIndex 8] := by decide +kernel
  have hpoints' : ((withInput (ofIndex 5)).recorded [ofIndex 1] []).ListsPoints
      (shortHistory (Confirmed.whole (ofIndex 8))) (ofIndex 1)
      [ofIndex 4, ofIndex 6, ofIndex 8] := by decide +kernel
  have hentry := hpoints.goesBy hs (OnCircle.ofIndex 8) (by decide)
  have hentry' := hpoints'.goesBy hs' (OnCircle.ofIndex 8) (by decide)
  have hcount : (run (.idle (withInput (ofIndex 5)))
      (shortHistory (Confirmed.whole (ofIndex 8))) .ok).toOption.map (·.count) = some 2 := by
    rw [hentry.run_eq_guided]
    decide +kernel
  have hcount' : (run (.idle ((withInput (ofIndex 5)).recorded [ofIndex 1] []))
      (shortHistory (Confirmed.whole (ofIndex 8))) .ok).toOption.map (·.count) = some 4 := by
    rw [hentry'.run_eq_guided]
    decide +kernel
  rw [hrun] at hcount
  rw [hrun'] at hcount'
  exact ⟨reachable_withInput 5, hb, hn', ⟨OnCircle.ofIndex 1, Or.inr (by decide)⟩, turn, turn',
    hrun, hrun', Option.some.inj hcount, Option.some.inj hcount'⟩

end Prediction

end Metronome
