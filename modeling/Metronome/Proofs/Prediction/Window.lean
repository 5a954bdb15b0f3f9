import Metronome.Proofs.Prediction.FarSide
import Metronome.Proofs.Prediction.Shape

/-!
# The window of a burst

A burst is on track if its whole batches end in the window, from the target back to the edge of
the history, and its last invocation is at the confirmed position. Recorded ticks on the far side
take it off track: the opposite of the target always, and the opposite of a confirmed tick under
way unless the history reaches half around the circle and no last full tick draws the burst past
its target (`Strays`).

`burst_on_track_iff` says that nothing else does. Toward a completed tick a burst that strays
does not return at all.
-/

namespace Metronome.Prediction

open Tick

variable {τ φ H : Type} [Fraction φ]

/-- The invocations of a burst are on track. -/
structure OnTrack (c : Confirmed φ) (history : UInt32) (is : List (Invocation τ φ)) : Prop where
  /-- Whole batches end neither ahead of the target nor past the history. -/
  within : ∀ i ∈ is, i.fraction = 1 →
    0 ≤ c.target.distance i.tick ∧ c.target.distance i.tick ≤ history.toNat
  /-- The last invocation is at the confirmed position. -/
  ends : is ≠ [] → ∃ i, is.getLast? = some i ∧ i.tick = c.tick ∧ i.fraction = c.fraction

variable [Seconds τ] [Clock τ φ] {s : Prediction τ φ} {c : Scene τ φ H} {start : Tick}
    {near : List Tick}

/-- The last full tick is so far ahead of the target that it draws the burst past it, and the first
batch does not end so far behind that its end passes for newer. -/
def Overtakes (s : Prediction τ φ) (c : Scene τ φ H) (start : Tick) (near : List Tick) : Prop :=
  s.lastFull.isValid = true ∧ 2 ≤ s.lastFull.distance c.world.confirmed.target ∧
    firstLag c.world.confirmed.target start c.world.config.repeatBudget near +
      s.lastFull.distance c.world.confirmed.target ≤ 1073741824

/-- A burst from a start over near points goes astray on the far side. -/
def Strays (s : Prediction τ φ) (c : Scene τ φ H) (start : Tick) (near : List Tick) : Prop :=
  c.world.confirmed.target.opposite ∈ s.basisOf c ∨
    c.world.confirmed.isPartial = true ∧ c.world.confirmed.tick.opposite ∈ s.basisOf c ∧
      (c.world.config.history.toNat + 1 < 1073741824 ∨ s.Overtakes c start near)

/-- If the history reaches half around the circle, the driver arrives with a last full tick that
overtakes its target exactly if it sets out with one. -/
theorem Replay.overtakes_iff {P : Config τ φ → Prop} {far ahead : List Tick}
    {is : List (Invocation τ φ)} {s₁ : Prediction τ φ} (hc : c.world.confirmed.tick.OnCircle)
    (hlong : ¬c.world.config.history.toNat + 1 < 1073741824)
    (h : Replay P far near (s.entered c start ahead) is s₁) :
    2 ≤ s₁.lastFull.distance c.world.confirmed.target ↔ s.Overtakes c start near := by
  have hfresh : s.Fresh c := fun _ => by
    have := distance_lt c.world.confirmed.tick s.lastFull
    omega
  have hlast : (s.entered c start ahead).lastFull = seeded s.lastFull c.world.confirmed.target :=
    hfresh.lastFull_planned hc
  have hover := h.overtaken_iff
  rw [hlast, entered_target, entered_start] at hover
  by_cases hv : s.lastFull.isValid = true
  · have hnew : s.isStale c = false := by
      have := hfresh hv
      simp only [isStale, seeded, hv, ↓reduceIte, decide_eq_false_iff_not]
      omega
    have hbudget : (s.entered c start ahead).budget = c.world.config.repeatBudget := by
      simp [entered, begun, hv, hnew]
    rw [hbudget, seeded, if_pos hv] at hover
    exact hover.trans ⟨fun h => ⟨hv, h⟩, fun h => h.2⟩
  · rw [seeded, if_neg hv, distance_self] at hover
    refine iff_of_false (fun h => ?_) fun h => hv h.1
    have := (hover.mp h).1
    omega

variable [Host H τ] {body : Scene τ φ H → Except Fault (Scene τ φ H)}

/-- A burst with a far point: it replays up to the target, and then goes past it or
jumps to the far point. -/
theorem run_far (hs : s.Sound) (hc : c.world.confirmed.tick.OnCircle) {p : Tick} {rest : List Tick}
    (hp : p.OnCircle) (hbehind : p.distance c.world.confirmed.target ≤ 0)
    (hroute : Route c.world.confirmed.target (start :: near))
    (hentry : s.GoesBy c start (near ++ p :: rest))
    {turn : Bracket.Turn (Prediction τ φ) (Scene τ φ H)} (hrun : run (.idle s) c body = .ok turn) :
    ∃ is s₁ i more,
      Replay (fun _ => True) (p :: rest) near (s.entered c start (near ++ p :: rest)) is s₁ ∧
      turn.invocations = is ++ i :: more ∧ i.fraction = 1 ∧
      (0 < s₁.lastFull.distance c.world.confirmed.target → 0 < p.distance s₁.lastFull →
        c.world.confirmed.target.distance i.tick < 0) ∧
      (¬(0 < s₁.lastFull.distance c.world.confirmed.target ∧ 0 < p.distance s₁.lastFull) →
        i.tick = p ∧
        (rest = [] → c.world.confirmed.isPartial = true →
          ∃ j, more = [j] ∧ j.tick = c.world.confirmed.tick ∧
          j.fraction = c.world.confirmed.fraction)) := by
  obtain ⟨r, s', hcourse, -⟩ := (hentry.run_eq_ok_iff (Or.inl (by simp))).mp hrun
  obtain ⟨whole, rest', is, s₁, c₁, hfound, hinv, hreplay, hrest, -⟩ :=
    hcourse.exists_replay (P := fun _ => True) (hs.onRoute_entered hc hroute) fun _ _ => trivial
  have hon := hreplay.arrives
  obtain ⟨htarget, hconfirmed, hdone, -⟩ := hreplay.frame_entered
  have hstart := hon.start_eq_target.trans htarget
  cases hrest with
  | done hends => simp [wantsMore, hon.ahead] at hends
  | @leg _ s₂ _ c₂ c₃ w found _ hmore hstep hbody hw hrest =>
    obtain ⟨b, hb, hahead, -, -, -, hconf, hpart, -, i, hi, htick, hfraction⟩ :=
      step_of_ahead hon.ahead hstep
    obtain ⟨b', hb', hpast, hjump⟩ :=
      exists_nextBatch hon.onCircle_start hp hon.lastFull (hstart ▸ hbehind)
      (hon.one_le_purse c₁.world.config)
    obtain rfl := Except.ok.inj (hb.symm.trans hb')
    rw [hstart] at hpast hjump
    have hinvs : turn.invocations =
        is ++ i :: found.filterMap Scene.invocation? := by
      simp [Bracket.Turn.invocations, hfound, filterMap_of_map_eq hinv, hi]
    refine ⟨is, s₁, i, _, hreplay, hinvs, hfraction, fun hfirst hthen => ?_, fun hnot => ?_⟩
    · obtain ⟨n, hn, hle, hstop⟩ := hpast hfirst hthen
      have hg := Confirmed.onCircle_target hc
      have hself := distance_self c.world.confirmed.target
      have hlt := distance_lt s₁.lastFull c.world.confirmed.target
      rw [htick, hstop, distance_shift_right hg hg (by omega)]
      omega
    · rw [hjump hnot] at htick hahead
      refine ⟨htick, fun hnil hp' => ?_⟩
      have hahead : s₂.ahead = [] := hahead.trans hnil
      have hconf := hconf.trans hconfirmed
      rcases hrest.of_arrived hahead (hpart.trans hdone) with ⟨hwhole, -, -⟩ | ⟨-, rfl, -⟩
      · rw [hconf, hp'] at hwhole
        cases hwhole
      · exact ⟨_, rfl, congrArg Confirmed.tick hconf, congrArg Confirmed.fraction hconf⟩

/-! ## On track or not -/

section Cases

variable {oldest : Tick} {far : List Tick}

omit [Host H τ] in
/-- The batches up to the target end in the window. -/
theorem Replay.within {P : Config τ φ → Prop} {ahead : List Tick} {is : List (Invocation τ φ)}
    {s₁ : Prediction τ φ} (h : Replay P far near (s.entered c start ahead) is s₁)
    (hreach : c.world.confirmed.target.distance start ≤ c.world.config.history.toNat) :
    ∀ i ∈ is, 0 ≤ c.world.confirmed.target.distance i.tick ∧
      c.world.confirmed.target.distance i.tick ≤ c.world.config.history.toNat := by
  intro i hi
  obtain ⟨-, hlo, hhi⟩ := h.between i hi
  rw [entered_target] at hlo hhi
  rw [entered_start] at hhi
  exact ⟨hlo, by omega⟩

variable [LawfulFraction φ]

/-- Without far points a burst is on track. -/
theorem onTrack_of_near (hs : s.Sound) (hb : c.world.confirmed.Built)
    (hc : c.world.confirmed.tick.OnCircle) (hroute : Route c.world.confirmed.target (start :: near))
    (hentry : s.GoesBy c start near)
    (hreach : c.world.confirmed.target.distance start ≤ c.world.config.history.toNat)
    {turn : Bracket.Turn (Prediction τ φ) (Scene τ φ H)} (hrun : run (.idle s) c body = .ok turn) :
    OnTrack c.world.confirmed c.world.config.history turn.invocations := by
  rcases run_cases (keeps_true body) trivial hs hc hroute hentry hrun with
    ⟨-, -, rfl⟩ | ⟨hmore, is, s₁, _, c₁, hreplay, hinv, -, -, -, -⟩
  · exact ⟨fun i hi => by simp [Bracket.Turn.invocations] at hi, fun hne => absurd rfl hne⟩
  · have hshape := shape_of_replay hb hc hmore hreplay c₁
    rw [hinv]
    refine ⟨fun i hi hone => ?_, fun _ => hshape.ends⟩
    rcases List.mem_append.mp hi with hi | hi
    · exact hreplay.within hreach i hi
    · -- the part of a tick is not a whole batch
      have hconfirmed := hreplay.frame_entered.2.1
      unfold trailings at hi
      split at hi
      · rename_i hpart
        rw [List.mem_singleton.mp hi] at hone
        have hwhole : s₁.confirmed.isPartial = false :=
          (hconfirmed ▸ hb).isPartial_eq_false_iff.mpr hone
        rw [hpart] at hwhole
        cases hwhole
      · cases hi

omit [LawfulFraction φ] in
/-- Toward the opposite of its target a burst leaves the window. -/
theorem not_onTrack_of_opposite (hs : s.Sound) (hc : c.world.confirmed.tick.OnCircle)
    (hroute : Route c.world.confirmed.target (start :: near)) {rest : List Tick}
    (hentry : s.GoesBy c start (near ++ c.world.confirmed.target.opposite :: rest))
    {turn : Bracket.Turn (Prediction τ φ) (Scene τ φ H)} (hrun : run (.idle s) c body = .ok turn) :
    ¬OnTrack c.world.confirmed c.world.config.history turn.invocations := by
  have hg := Confirmed.onCircle_target hc
  have hopp := distance_opposite hg
  have hback := opposite_distance hg
  obtain ⟨is, s₁, i, more, -, hinv, hone, hpast, hjump⟩ :=
    run_far hs hc hg.opposite (by omega) hroute hentry hrun
  intro htrack
  have hlo := (htrack.within i (by simp [hinv]) hone).1
  by_cases hcross : 0 < s₁.lastFull.distance c.world.confirmed.target ∧
      0 < c.world.confirmed.target.opposite.distance s₁.lastFull
  · have := hpast hcross.1 hcross.2
    omega
  · rw [(hjump hcross).1] at hlo
    omega

/-- Toward the opposite of a confirmed tick under way a burst is on track if the window reaches that
far and no last full tick draws it past the target. -/
theorem onTrack_iff_of_opposite (hs : s.Sound) (hb : c.world.confirmed.Built)
    (hc : c.world.confirmed.tick.OnCircle) (hpart : c.world.confirmed.isPartial = true)
    (hroute : Route c.world.confirmed.target (start :: near))
    (hentry : s.GoesBy c start (near ++ [c.world.confirmed.tick.opposite]))
    (hreach : c.world.confirmed.target.distance start ≤ c.world.config.history.toNat)
    {turn : Bracket.Turn (Prediction τ φ) (Scene τ φ H)} (hrun : run (.idle s) c body = .ok turn) :
    OnTrack c.world.confirmed c.world.config.history turn.invocations ↔
      ¬(c.world.config.history.toNat + 1 < 1073741824 ∨ s.Overtakes c start near) := by
  have hg := Confirmed.onCircle_target hc
  have hdist := target_distance_opposite hc hpart
  have hcomm := distance_comm hg hc.opposite (by omega)
  obtain ⟨is, s₁, i, more, hreplay, hinv, hone, hpast, hjump⟩ :=
    run_far hs hc hc.opposite (by omega) hroute hentry hrun
  have hcross := passes_opposite_iff hc hpart hreplay.arrives.lastFull
  constructor
  · intro htrack hbad
    obtain ⟨hlo, hhi⟩ := htrack.within i (by simp [hinv]) hone
    have hnot : ¬2 ≤ s₁.lastFull.distance c.world.confirmed.target := by
      intro hover
      obtain ⟨hfirst, hthen⟩ := hcross.mpr hover
      have := hpast hfirst hthen
      omega
    rw [(hjump (mt hcross.mp hnot)).1, hdist] at hhi
    rcases hbad with hshort | hover
    · omega
    · exact hnot ((hreplay.overtakes_iff hc (by omega)).mpr hover)
  · intro hgood
    obtain ⟨hlong, hover⟩ := not_or.mp hgood
    have hnot := mt (hreplay.overtakes_iff hc hlong).mp hover
    obtain ⟨htick, hend⟩ := hjump (mt hcross.mp hnot)
    obtain ⟨j, rfl, hj, hjf⟩ := hend rfl hpart
    rw [hinv]
    refine ⟨fun k hk hkone => ?_, fun _ => ⟨j, by simp, hj, hjf⟩⟩
    rcases List.mem_append.mp hk with hk | hk
    · exact hreplay.within hreach k hk
    rcases List.mem_cons.mp hk with rfl | hk
    · rw [htick, hdist]
      omega
    · rw [List.mem_singleton.mp hk, hjf] at hkone
      rw [hb.isPartial_eq_false_iff.mpr hkone] at hpart
      cases hpart

end Cases

/-! ## Bursts that return -/

omit [Host H τ] in
/-- On arrival with a point on the far side, the next leg goes where the next batch ends. -/
theorem OnRoute.exists_nextLeg {s : Prediction τ φ} {c : Scene τ φ H} {point : Tick}
    {rest : List Tick} (on : OnRoute s [] (point :: rest)) {b : Batch} (hstop : b.stop.OnCircle)
    (hb : nextBatch s.start point s.lastFull s.budget c.world.config.firstBudget = .ok b) :
    ∃ s₁ leg, nextLeg s c = .ok (s₁, c.ghosts.joined s.start, leg) ∧
      s₁.ahead = (if b.split then point :: rest else rest) ∧ s₁.confirmed = s.confirmed ∧
      s₁.partialDone = s.partialDone ∧ s₁.invocations = s.invocations ∧ s₁.finals = s.finals ∧
      leg.flags.contains StepFlags.final = (b.stop == s.confirmed.tick) := by
  have hahead : s.ahead = point :: rest := on.ahead
  have hfirst : isFirstTime s.lastFull b.stop = .ok (decide (0 < b.stop.distance s.lastFull)) := by
    rw [isFirstTime, if_pos on.lastFull.isValid,
      isNewerThan_eq_ok hstop.isValid on.lastFull.isValid]
  simp only [nextLeg, hahead, batchLeg, hb, ok_bind, hfirst,
    Ghosts.enableFrom_eq_ok _ on.onCircle_start.isValid,
    since_eq_ok on.onCircle_target.isValid hstop.isValid, pure_eq_ok]
  exact ⟨_, _, rfl, rfl, rfl, rfl, rfl, rfl, (contains_batchFlags _ _ _ _ _).2.1⟩

/-- A jump to a far point under a quiet body: the step, the body and the end of
the scope all return. -/
theorem OnRoute.exists_jump (hq : Quiet body) {s : Prediction τ φ} {c : Scene τ φ H} {point : Tick}
    {rest : List Tick} (on : OnRoute s [] (point :: rest)) (hp : point.OnCircle)
    (hbehind : point.distance s.start ≤ 0)
    (hjumps : ¬(0 < s.lastFull.distance s.start ∧ 0 < point.distance s.lastFull))
    (hne : point ≠ s.confirmed.tick) {n : Nat} (hroom : Room (n + 1) s c) :
    ∃ s₁ c₁ c₂ w, step (s, c) = .ok (s₁, c₁) ∧ body c₁ = .ok c₂ ∧ c₂.world.exitScope = .ok w ∧
      Room n s₁ { c₂ with world := w } ∧ s₁.ahead = rest ∧ s₁.confirmed = s.confirmed ∧
      s₁.partialDone = s.partialDone ∧ s₁.finals = s.finals := by
  obtain ⟨b, hb, -, hjump⟩ :=
    exists_nextBatch on.onCircle_start hp on.lastFull hbehind (on.one_le_purse c.world.config)
  obtain rfl := hjump hjumps
  obtain ⟨s₁, leg, hleg, hahead, hconf, hdone, hinv, hfin, hflag⟩ := on.exists_nextLeg hp hb
  have hflag := (contains_invocation leg (s.invocations == 0) (by decide)).trans
    (hflag.trans (beq_eq_false_iff_ne.mpr hne))
  obtain ⟨c₂, w, hbody, hw, htime⟩ :=
    hq.exists_close c (leg.invocation (s.invocations == 0)) (c.ghosts.joined s.start)
  have hindex : w.time.predictedIndex = c.world.time.predictedIndex + 1 := by
    rw [htime]
    rfl
  refine ⟨_, _, c₂, w, (Prediction.step_eq_ok_iff hleg).mpr ⟨hroom.fits _, rfl, rfl⟩,
    hbody, hw, hroom.counted s₁ hinv hfin _ _ hindex, hahead, hconf, hdone, ?_⟩
  simp [counted, hflag, hfin]

/-- With a quiet body a burst that jumps to the opposite of a confirmed tick under way returns. -/
theorem exists_run_of_opposite [LawfulFraction φ] (hq : Quiet body) (hs : s.Sound)
    (hb : c.world.confirmed.Built) (hc : c.world.confirmed.tick.OnCircle)
    (hpart : c.world.confirmed.isPartial = true)
    (hroute : Route c.world.confirmed.target (start :: near))
    (hentry : s.GoesBy c start (near ++ [c.world.confirmed.tick.opposite]))
    (hlong : ¬c.world.config.history.toNat + 1 < 1073741824) (hover : ¬s.Overtakes c start near) :
    ∃ turn, run (.idle s) c body = .ok turn := by
  have hg := Confirmed.onCircle_target hc
  have hopp := target_distance_opposite hc hpart
  have hfar : IsFar c.world.confirmed c.world.confirmed.tick.opposite := Or.inr ⟨hpart, rfl⟩
  have hbehind := hfar.distance_target hc
  have hon : OnRoute (s.entered c start (near ++ [c.world.confirmed.tick.opposite])) near
    [c.world.confirmed.tick.opposite] := hs.onRoute_entered hc hroute
  have hdist := hon.target_distance_start
  have hlt := distance_lt c.world.confirmed.target start
  rw [entered_target, entered_start] at hdist
  have hsize : UInt32.size = 4294967296 := rfl
  obtain ⟨d, hd⟩ := Int.eq_ofNat_of_zero_le hdist
  have hroom :=
    room_entered s c start (near ++ [c.world.confirmed.tick.opposite]) (n := 2 + d) (by omega)
  obtain ⟨whole, is, s₁, c₁, hreplay, hroom₁, hcount, -, -, hcourse⟩ :=
    hon.exists_replay hq 2 d (by rw [entered_target, entered_start]; omega) hroom
  have hon₁ := hreplay.arrives
  obtain ⟨htarget, hconfirmed, hdone, -⟩ := hreplay.frame_entered
  have hstart := hon₁.start_eq_target.trans htarget
  have hjumps := mt (passes_opposite_iff hc hpart hon₁.lastFull).mp
    (mt (hreplay.overtakes_iff hc hlong).mp hover)
  rw [← hstart] at hjumps hbehind
  have hne : c.world.confirmed.tick.opposite ≠ s₁.confirmed.tick := by
    rw [hconfirmed]
    exact opposite_ne hc
  obtain ⟨s₂, c₂, c₃, w, hstep, hbody, hw, hroom₂, hahead, hconf, hpd, hfin⟩ :=
    hon₁.exists_jump hq hc.opposite (Int.le_of_lt hbehind) hjumps hne hroom₁
  have hconf := hconf.trans hconfirmed
  have hb₂ : s₂.confirmed.Built := by
    rw [hconf]
    exact hb
  have hmore : wantsMore s₁ = true := by simp [wantsMore, hon₁.ahead]
  have hzero : s₁.finals = 0 := (finals_of_replay hc hreplay).1 hpart
  obtain ⟨rest, r, y, hrest, hsettle, hshort⟩ := exists_end hq hb₂ hahead (hpd.trans hdone) hroom₂
    (fun _ => hfin.trans hzero) fun hwhole => by
      rw [hconf, hpart] at hwhole
      cases hwhole
  refine ⟨⟨.idle y.1, y.2, whole ++ c₂ :: rest⟩, (hentry.run_eq_ok_iff (Or.inr hpart)).mpr
    ⟨r, y.1, hcourse (.leg hmore hstep hbody hw hrest), hsettle, rfl, ?_⟩⟩
  have hlen := hreplay.tiles.length_le
  have hcover := hreplay.cover_eq
  rw [entered_target, entered_start] at hcover
  rw [List.length_append, List.length_cons]
  omega

/-! ## Bursts that do not return -/

omit [Fraction φ] [Seconds τ] [Clock τ φ] in
theorem time_of_exitScope {w w' : World τ φ H} (h : w.exitScope = .ok w') : w'.time = w.time := by
  unfold World.exitScope at h
  split at h <;> cases h
  rfl

/-- Toward a completed tick a burst under a quiet body ends where its last point is. -/
theorem Course.ends_on_last (hq : Quiet body) {x r : Prediction τ φ × Scene τ φ H}
    {found : List (Scene τ φ H)} (h : Course body x found r) {last : Tick} :
    x.1.confirmed.isPartial = false →
      x.1.ahead.getLast? = some last ∨ x.1.ahead = [] ∧ x.2.world.time.serverTick = last →
      r.1.confirmed = x.1.confirmed ∧ r.2.world.time.serverTick = last := by
  induction h with
  | @done s c hends =>
    rintro hwhole (hlast | ⟨-, htick⟩)
    · have hahead : s.ahead = [] := by simpa [wantsMore, hwhole] using hends
      simp [hahead] at hlast
    · exact ⟨rfl, htick⟩
  | @leg s s₁ c c₁ c₂ w found r hmore hstep hbody hw hrest ih =>
    intro hwhole hlast
    cases hahead : s.ahead with
    | nil => simp [wantsMore, hahead, hwhole] at hmore
    | cons point rest =>
      obtain ⟨b, hb, hahead₁, -, -, -, hconf, -, htick, -⟩ := step_of_ahead hahead hstep
      obtain ⟨c', hbody', htime, -⟩ := hq c₁
      obtain rfl := Except.ok.inj (hbody.symm.trans hbody')
      have hserver : w.time.serverTick = b.stop := by rw [time_of_exitScope hw, htime, htick]
      have hlast : (point :: rest).getLast? = some last := by simpa [hahead] using hlast
      refine (ih (by rw [hconf]; exact hwhole) ?_).imp_left fun h => h.trans hconf
      by_cases hsplit : b.split = true
      · rw [hahead₁, if_pos hsplit]
        exact Or.inl hlast
      · have hstop := (nextBatch_stop hb).1 (by simpa using hsplit)
        rw [hahead₁, if_neg hsplit]
        cases rest with
        | nil => exact Or.inr ⟨rfl, hserver.trans (hstop.trans (by simpa using hlast))⟩
        | cons next rest => exact Or.inl (by simpa using hlast)

/-- Toward a completed tick a burst with a far point does not return under a quiet body: it does not
end on the confirmed tick, and the check at its end fails. -/
theorem run_ne_ok (hq : Quiet body) (hc : c.world.confirmed.tick.OnCircle)
    (hwhole : c.world.confirmed.isPartial = false) {far : List Tick} (hne : far ≠ [])
    (hfar : ∀ t ∈ far, IsFar c.world.confirmed t ∧ t ∈ s.basisOf c)
    (hentry : s.GoesBy c start (near ++ far)) :
    ∃ fault, run (.idle s) c body = .error fault := by
  cases hrun : run (.idle s) c body with
  | error fault => exact ⟨fault, rfl⟩
  | ok turn =>
    obtain ⟨r, s', hcourse, hsettles, -⟩ := (hentry.run_eq_ok_iff (Or.inl (by simp [hne]))).mp hrun
    have hlast : (near ++ far).getLast? = some (far.getLast hne) := by
      rw [List.getLast?_append, List.getLast?_eq_some_getLast hne]
      rfl
    obtain ⟨hconf, htick⟩ := hcourse.ends_on_last hq hwhole (Or.inl hlast)
    have hconf : r.1.confirmed = c.world.confirmed := hconf
    have hreached := (settle_eq_ok_iff.mp hsettles).1
    rw [htick, hconf] at hreached
    rcases (hfar _ (List.getLast_mem hne)).1 with hopp | ⟨hpart, -⟩
    · rw [hopp, Confirmed.target_of_not_isPartial hwhole] at hreached
      exact absurd hreached (opposite_ne hc)
    · rw [hwhole] at hpart
      cases hpart

/-! ## The exact condition -/

section Exact

variable {oldest : Tick} {far : List Tick}

omit [Seconds τ] [Clock τ φ] [Host H τ] in
theorem not_strays_of_near (hp : s.Plan c oldest (start :: (near ++ [])))
    (hc : c.world.confirmed.tick.OnCircle) (hroute : Route c.world.confirmed.target (start :: near))
    (hdist : ∀ t ∈ start :: near, c.world.confirmed.tick.distance t =
      c.world.confirmed.target.distance t + c.world.confirmed.lag) : ¬s.Strays c start near := by
  rintro (hmem | ⟨hpart, hmem, -⟩)
  · exact List.not_mem_nil (hp.mem_far hc hroute hdist hmem (Or.inl rfl))
  · exact List.not_mem_nil (hp.mem_far hc hroute hdist hmem (Or.inr ⟨hpart, rfl⟩))

omit [Seconds τ] [Clock τ φ] [Host H τ] in
theorem strays_iff_of_opposite
    (hp : s.Plan c oldest (start :: (near ++ [c.world.confirmed.tick.opposite])))
    (hc : c.world.confirmed.tick.OnCircle) (hroute : Route c.world.confirmed.target (start :: near))
    (hdist : ∀ t ∈ start :: near, c.world.confirmed.tick.distance t =
      c.world.confirmed.target.distance t + c.world.confirmed.lag)
    (hpart : c.world.confirmed.isPartial = true)
    (hmem : c.world.confirmed.tick.opposite ∈ s.basisOf c) :
    s.Strays c start near ↔ c.world.config.history.toNat + 1 < 1073741824 ∨
      s.Overtakes c start near := by
  constructor
  · rintro (htarget | ⟨-, -, h⟩)
    · have heq := List.mem_singleton.mp (hp.mem_far hc hroute hdist htarget (Or.inl rfl))
      have hopp := distance_opposite (Confirmed.onCircle_target hc)
      rw [heq, target_distance_opposite hc hpart] at hopp
      omega
    · exact h
  · exact fun h => Or.inr ⟨hpart, hmem, h⟩

end Exact

variable [LawfulFraction φ]

/-- A burst that returns is on track exactly if it does not go astray on the far side. Under a quiet
body it returns unless it goes astray, and toward a completed tick it does not return if it does. -/
theorem burst_on_track_iff (body : Scene τ φ H → Except Fault (Scene τ φ H)) (hs : s.Sound)
    (hb : c.world.confirmed.Built) :
    ((c.world.confirmed.isValid = false ∨ LacksGhost c) → ∃ turn, run (.idle s) c body = .ok turn ∧
      turn.found = []) ∧
    (c.world.confirmed.isValid = true → ¬LacksGhost c →
      ∃ oldest start near far, s.Plan c oldest (start :: (near ++ far)) ∧
        Route c.world.confirmed.target (start :: near) ∧
        (∀ turn, run (.idle s) c body = .ok turn →
          (OnTrack c.world.confirmed c.world.config.history turn.invocations ↔
            ¬s.Strays c start near)) ∧
        (Quiet body → ¬s.Strays c start near → ∃ turn, run (.idle s) c body = .ok turn) ∧
        (Quiet body → s.Strays c start near → c.world.confirmed.isPartial = false →
          ∃ fault, run (.idle s) c body = .error fault)) := by
  refine ⟨fun hnone => ?_, fun hv hg => ?_⟩
  · by_cases hv : c.world.confirmed.isValid = true
    · have hg := hnone.resolve_left (by simp [hv])
      exact ⟨_, run_of_lacksGhost hv hg body, rfl⟩
    · exact ⟨_, run_of_not_isValid (by simpa using hv) body, rfl⟩
  have hc := hb.onCircle hv
  obtain ⟨oldest, start, near, far, hplan, hroute, hdist, hfar, hentry⟩ := exists_entry hs hc hg
  have hreach : c.world.confirmed.target.distance start ≤ c.world.config.history.toNat := by
    have := (hplan.mem_cases hs hc List.mem_cons_self).2.1
    have := hdist start List.mem_cons_self
    have := c.world.confirmed.lag_nonneg
    omega
  refine ⟨oldest, start, near, far, hplan, hroute, ?_⟩
  rcases hplan.far_cases hc hfar with rfl | ⟨rest, rfl⟩ | ⟨hpart, rfl⟩
  · have hnot := not_strays_of_near hplan hc hroute hdist
    have hnone : s.NoneFar c := fun t ht h => List.not_mem_nil (hplan.mem_far hc hroute hdist ht h)
    rw [List.append_nil] at hentry
    exact ⟨fun turn hrun => iff_of_true (onTrack_of_near hs hb hc hroute hentry hreach hrun) hnot,
      fun hq _ => exists_run hq hs hb hc hg hnone, fun _ h => absurd h hnot⟩
  · have hstrays : s.Strays c start near := Or.inl (hfar _ List.mem_cons_self).2
    exact ⟨fun turn hrun =>
      iff_of_false (not_onTrack_of_opposite hs hc hroute hentry hrun) (not_not.mpr hstrays),
      fun _ h => absurd hstrays h, fun hq _ hwhole =>
        run_ne_ok hq hc hwhole (List.cons_ne_nil _ _) hfar hentry⟩
  · have hiff := strays_iff_of_opposite hplan hc hroute hdist hpart (hfar _ List.mem_cons_self).2
    rw [hiff]
    refine ⟨fun turn hrun => onTrack_iff_of_opposite hs hb hc hpart hroute hentry hreach hrun,
      fun hq hnot => ?_, fun _ _ hwhole => ?_⟩
    · obtain ⟨hlong, hover⟩ := not_or.mp hnot
      exact exists_run_of_opposite hq hs hb hc hpart hroute hentry hlong hover
    · rw [hpart] at hwhole
      cases hwhole

/-- With state from half around the circle there is no burst to tick `10`. -/
theorem burst_on_track_iff_client :
    ∃ fault, run (.idle (initial.recorded [(ofIndex 10).opposite] []))
      (Scene.client Config.standard (Confirmed.whole (ofIndex 10) : Confirmed Float32)) .ok =
        .error fault := by
  have hc := OnCircle.ofIndex 10
  have hs : (initial.recorded [(ofIndex 10).opposite] [] : Prediction Float Float32).Sound :=
    sound_initial.recorded (by simp [Regular, hc.opposite]) (by simp)
  obtain ⟨-, hplans⟩ :=
    burst_on_track_iff (c := Scene.client Config.standard (Confirmed.whole (ofIndex 10))) .ok hs
    (.whole (Or.inr hc))
  obtain ⟨oldest, start, near, far, -, -, -, -, hfails⟩ := hplans (by decide) (by decide)
  have hmem : (ofIndex 10).opposite ∈
      ((initial.recorded [(ofIndex 10).opposite] [] : Prediction Float Float32).heard
      (Scene.client Config.standard
        (Confirmed.whole (ofIndex 10) : Confirmed Float32))).applied.ticks := by decide
  exact hfails (fun c => ⟨c, rfl, rfl, rfl⟩) (Or.inl (Or.inl hmem)) (by decide)

end Metronome.Prediction
