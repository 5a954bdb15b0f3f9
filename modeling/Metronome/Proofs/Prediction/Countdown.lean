import Metronome.Proofs.Prediction.Shape

/-!
# The countdown of a burst

A burst that is on its route has so many ticks to go, `pending`: those up to the target, and one for
the part of a tick. Every step takes from them, a hop as many as its batch has (`pending_lt`). At
first they are what the record says is expected (`toNat_expectedTicks`), and no more than the
history (`Plan.pending_le`). So the queries of a frame end, whatever its bodies do
(`Countdown.query_cases`), and no burst has more invocations than ticks.

The plan of a burst has a loop of its own: from the oldest tick to start from, or from the edge of
the history, it walks over the inputs until it is past the target (`Walk`). It is past it after as
many rounds as the target is ahead (`exists_walk`), which is within the history again.
-/

namespace Metronome.Prediction

open Tick

variable {τ φ H : Type}

/-! ## The walk over the inputs -/

/-- The rounds of a walk from a tick until it is past the last one, with the ticks that it meets. -/
inductive Walk (last : Tick) : Tick → List Tick → Prop
  /-- The walk is past the last tick. -/
  | past {next : Tick} (newer : next.isNewerThan last = .ok true) : Walk last next []
  /-- The walk meets a tick and goes on to the one after it. -/
  | meets {next after : Tick} {ts : List Tick} (reached : next.isNewerThan last = .ok false)
      (steps : next.next = .ok after) (rest : Walk last after ts) : Walk last next (next :: ts)

/-- The ticks after one and up to another, by their distances. -/
theorem after_iff {e last t : Tick} (he : e.OnCircle) (hl : last.OnCircle) (ht : t.OnCircle)
    (hpos : 0 < last.distance e) :
    0 < t.distance e ∧ t.distance last ≤ 0 ↔
      t = e.shift 1 ∨ 0 < t.distance (e.shift 1) ∧ t.distance last ≤ 0 := by
  have h1 : (1 : UInt32).toNat = 1 := rfl
  have hnext := he.shift 1
  have heq : t = e.shift 1 ↔ t.distance (e.shift 1) = 0 :=
    ⟨fun h => h ▸ distance_self t, eq_of_distance_eq_zero ht hnext⟩
  have hself := distance_self e
  have hone := distance_shift_left (n := 1) he he (by omega)
  -- around three ticks the distances add up to whole turns; their bounds say how many
  obtain ⟨k, hk⟩ := distance_triangle ht hl he
  obtain ⟨k', hk'⟩ := distance_triangle ht hnext he
  have := distance_lt t e
  have := le_distance t e
  have := distance_lt t last
  have := le_distance t last
  have := distance_lt t (e.shift 1)
  have := le_distance t (e.shift 1)
  have := distance_lt last e
  rw [heq]
  omega

/-- From the tick after another a walk meets the ticks after that one and up to the last, as many as
the last is ahead. -/
theorem exists_walk {last : Tick} (hl : last.OnCircle) (n : Nat) :
    ∀ {e : Tick}, e.OnCircle → last.distance e = n →
      ∃ ts, Walk last (e.shift 1) ts ∧ ts.length = n ∧
        ∀ t : Tick, t.OnCircle → (t ∈ ts ↔ 0 < t.distance e ∧ t.distance last ≤ 0) := by
  have h1 : (1 : UInt32).toNat = 1 := rfl
  induction n with
  | zero =>
    intro e he hn
    obtain rfl := eq_of_distance_eq_zero hl he hn
    have hself := distance_self last
    have hpast := distance_shift_left (n := 1) hl hl (by omega)
    refine ⟨[], .past ?_, rfl, fun t _ => ?_⟩
    · rw [isNewerThan_eq_ok (hl.shift 1).isValid hl.isValid, hpast, hself]
      rfl
    · simp
  | succ n ih =>
    intro e he hn
    have hlt := distance_lt last e
    have hstep := distance_shift_right (n := 1) hl he (by omega)
    obtain ⟨ts, hwalk, hlen, hmem⟩ := ih (he.shift 1) (by omega)
    have hcomm := distance_comm hl (he.shift 1) (by omega)
    refine ⟨e.shift 1 :: ts, .meets ?_ (advance_eq_ok (he.shift 1).isValid 1) hwalk, by simp [hlen],
      fun t ht => ?_⟩
    · rw [isNewerThan_eq_ok (he.shift 1).isValid hl.isValid, hcomm, decide_eq_false (by omega)]
    · rw [List.mem_cons, hmem t ht, after_iff he hl ht (by omega)]

/-- So many rounds the walk is counted to have. -/
theorem walkLength_next {e last : Tick} (he : e.OnCircle) (hl : last.OnCircle)
    (hle : 0 ≤ last.distance e) : (walkLength (e.shift 1) last : Int) = last.distance e := by
  have h1 : (1 : UInt32).toNat = 1 := rfl
  have hcomm := distance_comm hl he (by omega)
  have hlt := distance_lt last e
  have hfirst := distance_shift_left (n := 1) he hl (by omega)
  rw [walkLength_eq (he.shift 1) hl]
  omega

/-- Where the walk over inputs meets these ticks, the points are the ticks before those of them that
are inputs. -/
theorem inputPoints_of_walk {inputs : TickSet} (hi : inputs.OnCircle) {e target : Tick}
    (he : e.OnCircle) (hg : target.OnCircle) (hle : 0 ≤ target.distance e) {ts : List Tick}
    (hmem : ∀ t : Tick, t.OnCircle → (t ∈ ts ↔ 0 < t.distance e ∧ t.distance target ≤ 0)) :
    inputPoints inputs (e.shift 1) target =
      .ok ((inputs.ticks.filter fun t => decide (t ∈ ts)).map (·.shiftBack 1)) := by
  have hsame : inputs.ticks.filter (onWalk (e.shift 1) (walkLength (e.shift 1) target)) =
      inputs.ticks.filter fun t => decide (t ∈ ts) := List.filter_congr fun t ht => by
    rw [Bool.eq_iff_iff, onWalk_iff_newer he hg (hi t ht) hle, decide_eq_true_iff, hmem t (hi t ht)]
  simp [inputPoints, hg.isValid, onWalk_invalid (he.shift 1), hsame]

variable [Fraction φ]

/-- The walk that the plan of a frame takes over the inputs, with the ticks that it meets: it begins
where inputs begin to matter, has as many rounds as the plan counts, and gives the points before the
inputs among its ticks. -/
def WalksOver (s : Prediction τ φ) (c : Scene τ φ H) (met : List Tick) : Prop :=
  ∃ applied lastFull oldest first,
    withTarget (s.heard c).applied s.lastFull c.world.confirmed.target = .ok (applied, lastFull) ∧
    applied.oldest c.world.confirmed.tick = .ok (some oldest) ∧
    firstInput c.world.confirmed.tick oldest c.world.config.history = .ok first ∧
    Walk c.world.confirmed.target first met ∧
    met.length = walkLength first c.world.confirmed.target ∧
    inputPoints (s.heard c).inputs first c.world.confirmed.target =
      .ok (((s.heard c).inputs.ticks.filter fun t => decide (t ∈ met)).map (·.shiftBack 1))

variable {s : Prediction τ φ} {c : Scene τ φ H}

/-- The walk of a plan ends within the history. -/
theorem exists_walksOver (hs : s.Sound) (hc : c.world.confirmed.tick.OnCircle) :
    ∃ met, s.WalksOver c met ∧ met.length ≤ c.world.config.history.toNat := by
  have hg := Confirmed.onCircle_target hc
  have hh := one_le_history c.world.config
  obtain ⟨applied, hwith, ha, hmem⟩ := exists_withTarget (hs.heard c).applied hs.lastFull hg
  have htarget := (hmem c.world.confirmed.target).mpr (target_mem_basisOf s c)
  obtain ⟨oldest, hold, hmemold, hmax⟩ := ha.exists_oldest hc htarget
  have ho := ha oldest hmemold
  have hlag : c.world.confirmed.lag ≤ c.world.confirmed.tick.distance oldest :=
    Confirmed.distance_target hc ▸ hmax _ htarget
  have hlag0 := c.world.confirmed.lag_nonneg
  have he := onCircle_edge hc ho c.world.config.history
  obtain ⟨hfrom, hlo⟩ := target_distance_edge hc ho hh hlag
  have hedge := distance_edge (o := oldest) hc c.world.config.history
  obtain ⟨n, hn⟩ := Int.eq_ofNat_of_zero_le
    (a := c.world.confirmed.target.distance
      (edge c.world.confirmed.tick oldest c.world.config.history)) (by omega)
  obtain ⟨met, hwalk, hlen, hmet⟩ := exists_walk hg n he hn
  have hcount := walkLength_next he hg (by omega)
  exact ⟨met, ⟨applied, _, oldest, _, hwith, hold, firstInput_eq_ok hc ho _, hwalk, by omega,
    inputPoints_of_walk (hs.heard c).inputs he hg (by omega) hmet⟩, by omega⟩

/-! ## What is left of a burst -/

/-- The ticks that a burst has to go: those up to the target, and one for the part of a tick. -/
def pending (s : Prediction τ φ) : Nat :=
  (s.target.distance s.start).toNat + if s.confirmed.isPartial && !s.partialDone then 1 else 0

variable [Seconds τ] [Clock τ φ]

/-- A burst has to go from its start to the target, and for the tick that is under way. -/
theorem pending_entered {start : Tick} (hle : 0 ≤ c.world.confirmed.target.distance start)
    (ahead : List Tick) : ((s.entered c start ahead).pending : Int) =
      c.world.confirmed.target.distance start + c.world.confirmed.lag := by
  show (((c.world.confirmed.target.distance start).toNat +
    if c.world.confirmed.isPartial && !false then 1 else 0 : Nat) : Int) = _
  unfold Confirmed.lag
  cases c.world.confirmed.isPartial <;> simp <;> omega

/-- That is what the record says is expected. -/
theorem toNat_expectedTicks {start : Tick} (hle : 0 ≤ c.world.confirmed.target.distance start)
    (ahead : List Tick) :
    (c.begun start).world.time.expectedTicks.toNat = (s.entered c start ahead).pending := by
  have hpending := pending_entered (s := s) hle ahead
  have hlt := distance_lt c.world.confirmed.target start
  have hword := toNat_ofInt hle hlt
  have h1 : (1 : UInt32).toNat = 1 := rfl
  have h0 : (0 : UInt32).toNat = 0 := rfl
  show (UInt32.ofInt (c.world.confirmed.target.distance start) +
    if c.world.confirmed.isPartial then 1 else 0).toNat = _
  unfold Confirmed.lag at hpending
  rw [UInt32.toNat_add]
  cases hpart : c.world.confirmed.isPartial <;>
    simp only [hpart, Bool.false_eq_true, if_true, if_false] at hpending ⊢ <;> omega

/-- It is within the history. -/
theorem Plan.pending_le {oldest start : Tick} {near : List Tick}
    (hplan : s.Plan c oldest (start :: near)) (hs : s.Sound)
    (hc : c.world.confirmed.tick.OnCircle)
    (hroute : Route c.world.confirmed.target (start :: near)) :
    (s.entered c start near).pending ≤ c.world.config.history.toNat := by
  obtain ⟨-, hreach, -⟩ := hplan.mem_cases hs hc List.mem_cons_self
  have hstart := hplan.distance_start hs hc
  have hpending :=
    pending_entered (s := s) (hroute.distance_nonneg (t := start) List.mem_cons_self) near
  omega

/-- A burst that the driver sets up is on its route, with no more to go than the history. -/
theorem exists_route_of_wantsEntry (hs : s.Sound) (hc : c.world.confirmed.tick.OnCircle)
    (hn : s.Close c) {s₀ : Prediction τ φ} {c₀ : Scene τ φ H}
    (h : wantsEntry (s, c) = .ok (true, s₀, c₀)) :
    (∃ near, OnRoute (prepared s₀ c₀).1 near []) ∧
      (prepared s₀ c₀).1.pending ≤ c.world.config.history.toNat := by
  have hg : ¬LacksGhost c := by
    intro hg
    rw [wantsEntry_of_lacksGhost hc.isValid hg] at h
    cases h
  obtain ⟨oldest, start, near, hplan, hroute, hentry⟩ := exists_near_entry hs hc hg (hn.noneFar hc)
  rw [GoesBy, h] at hentry
  split at hentry
  · cases hentry
  · cases hentry
    exact ⟨⟨near, hs.onRoute_near hc hroute⟩, hplan.pending_le hs hc hroute⟩

variable [Host H τ]

/-- Every step of a burst that is on its route takes from what it has to go, and stays on the
route. -/
theorem OnRoute.pending_lt {near : List Tick} (hon : OnRoute s near [])
    (hmore : Prediction.wantsMore s = true) {s' : Prediction τ φ} {c' : Scene τ φ H}
    (hstep : step (s, c) = .ok (s', c')) :
    (∃ near', OnRoute s' near' []) ∧ s'.pending < s.pending := by
  cases near with
  | nil =>
    have hpart : s.confirmed.isPartial = true ∧ s.partialDone = false := by
      simpa [Prediction.wantsMore, hon.ahead] using hmore
    obtain ⟨-, rfl, -⟩ := (step_trailing_iff hon.ahead).mp hstep
    refine ⟨⟨[], ⟨hon.ahead, hon.route, hon.lastFull, hon.budget⟩⟩, ?_⟩
    simp [pending, afterTrailing, counted, hpart]
  | cons point near =>
    obtain ⟨-, rfl, -⟩ := hon.step_eq_ok_iff.mp hstep
    have hhop := hon.hop c.world.config c.world.time.flags
    refine ⟨⟨_, hhop⟩, ?_⟩
    have hstop := hon.target_distance_stop c.world.config
    have hbatch := (hon.nextLength_bounds c.world.config).1
    have hleft := hhop.target_distance_start
    show (s.target.distance (s.start.shift (s.nextLength c.world.config point))).toNat + _ <
      (s.target.distance s.start).toNat + _
    refine Nat.add_lt_add_right ?_ _
    have hleft : 0 ≤ s.target.distance (s.start.shift (s.nextLength c.world.config point)) := hleft
    omega

/-! ## Queries that count down -/

/-- What the queries of a frame count down: at first the history, then what is left of the burst. -/
def Countdown (s : Prediction τ φ) (c : Scene τ φ H) (n : Nat)
    (b : Bracket (Prediction τ φ × Scene τ φ H)) : Prop :=
  b = (Bracket.idle s).beside c ∧ c.world.config.history.toNat ≤ n ∨
    b.active = true ∧ (∃ near, OnRoute b.state.1 near []) ∧ b.state.1.pending ≤ n

/-- Every query that is answered `true` counts down. -/
theorem Countdown.of_query (hs : s.Sound) (hb : c.world.confirmed.Built) (hn : s.Close c) {n : Nat}
    {b b₁ : Bracket (Prediction τ φ × Scene τ φ H)} (h : Countdown s c n b)
    (hq : Bracket.query .repeatWhile hooks b = .ok (true, b₁)) :
    b₁.active = true ∧ (∃ near, OnRoute b₁.state.1 near []) ∧ b₁.state.1.pending < n := by
  obtain ⟨rfl, hle⟩ | ⟨hactive, ⟨near, hon⟩, hle⟩ := h
  · obtain ⟨s₀, c₀, ⟨s₁, c₁⟩, hentry, hstep, rfl⟩ := query_enters_iff.mp hq
    have hv : c.world.confirmed.isValid = true := by
      by_contra hv
      rw [wantsEntry_of_not_isValid (by simpa using hv)] at hentry
      cases hentry
    obtain ⟨⟨near, hon⟩, hpending⟩ := exists_route_of_wantsEntry hs (hb.onCircle hv) hn hentry
    obtain ⟨hon₁, hlt⟩ := hon.pending_lt (begins_of_wantsEntry hentry).2 hstep
    exact ⟨rfl, hon₁, Nat.lt_of_lt_of_le hlt (Nat.le_trans hpending hle)⟩
  · obtain ⟨_, s', c'⟩ := b
    obtain rfl := hactive
    obtain ⟨hmore, w, ⟨s₁, c₁⟩, -, hstep, rfl⟩ := query_goesOn_iff.mp hq
    obtain ⟨hon₁, hlt⟩ := hon.pending_lt hmore hstep
    exact ⟨rfl, hon₁, Nat.lt_of_lt_of_le hlt hle⟩

/-- Whatever the bodies do, the queries of a frame end it or count down. -/
theorem Countdown.query_cases (hs : s.Sound) (hb : c.world.confirmed.Built) (hn : s.Close c)
    (body : Scene τ φ H → Except Fault (Scene τ φ H)) (n : Nat)
    (b : Bracket (Prediction τ φ × Scene τ φ H)) (h : Countdown s c n b) :
    (∃ b', Bracket.query .repeatWhile hooks b = .ok (false, b')) ∨
      (∃ f, Bracket.query .repeatWhile hooks b = .error f ∧ True) ∨
      ∃ m b₁, m < n ∧ Bracket.query .repeatWhile hooks b = .ok (true, b₁) ∧
        ((∃ f, Bracket.besideState body b₁.state = .error f ∧ True) ∨
          ∃ x, Bracket.besideState body b₁.state = .ok x ∧ Countdown s c m ⟨b₁.active, x⟩) := by
  rcases hq : Bracket.query .repeatWhile hooks b with f | ⟨runs, b₁⟩
  · exact Or.inr (Or.inl ⟨f, rfl, trivial⟩)
  cases runs with
  | false => exact Or.inl ⟨b₁, rfl⟩
  | true =>
    obtain ⟨hactive, hon, hlt⟩ := h.of_query hs hb hn hq
    refine Or.inr (Or.inr ⟨_, b₁, hlt, rfl, ?_⟩)
    rcases hx : Bracket.besideState body b₁.state with f | x
    · exact Or.inl ⟨f, rfl, trivial⟩
    · obtain ⟨c₂, -, rfl⟩ := Bracket.besideState_eq_ok_iff.mp hx
      exact Or.inr ⟨_, rfl, Or.inr ⟨hactive, hon, Nat.le_refl _⟩⟩

/-- The queries of a frame end: after as many bodies as the history has ticks, the driver
declines. -/
theorem loop_ne_none (hs : s.Sound) (hb : c.world.confirmed.Built) (hn : s.Close c)
    (body : Scene τ φ H → Except Fault (Scene τ φ H)) :
    Bracket.loop .repeatWhile hooks (Bracket.besideState body)
      (c.world.config.history.toNat + 1) ((Bracket.idle s).beside c) ≠ none := by
  rcases Bracket.loop_ends (P := fun _ => True) (Countdown.query_cases hs hb hn body)
      (Nat.lt_succ_self c.world.config.history.toNat) (Or.inl ⟨rfl, Nat.le_refl _⟩) with
    ⟨r, hr⟩ | ⟨f, hf, -⟩
  · rw [hr]
    exact Option.some_ne_none _
  · rw [hf]
    exact Option.some_ne_none _

/-! ## The invocations of a burst -/

/-- A step leaves the number of expected ticks in the record. -/
theorem expectedTicks_of_step {s' : Prediction τ φ} {c' : Scene τ φ H}
    (h : step (s, c) = .ok (s', c')) :
    c'.world.time.expectedTicks = c.world.time.expectedTicks := by
  obtain ⟨s₁, ghosts, leg, hleg⟩ := exists_nextLeg h
  obtain ⟨-, -, rfl⟩ := (step_eq_ok_iff hleg).mp h
  rfl

/-- The first body of a burst finds the number of expected ticks that the burst began with. -/
theorem Course.exists_head {body : Scene τ φ H → Except Fault (Scene τ φ H)}
    {x r : Prediction τ φ × Scene τ φ H} {found : List (Scene τ φ H)} (h : Course body x found r)
    (hne : found ≠ []) : ∃ y, found.head? = some y ∧
      y.world.time.expectedTicks = x.2.world.time.expectedTicks := by
  cases h with
  | done => exact absurd rfl hne
  | leg _ hstep => exact ⟨_, rfl, expectedTicks_of_step hstep⟩

omit [Host H τ] in
/-- The invocations after a replay cover the ticks that are left to the confirmed one. -/
theorem cover_trailings (s : Prediction τ φ) (c : Scene τ φ H) :
    (s.trailings c).length = cover (s.trailings c) ∧
      (cover (s.trailings c) : Int) = s.confirmed.lag := by
  unfold trailings Confirmed.lag
  split <;> exact ⟨rfl, rfl⟩

variable [LawfulFraction φ]

/-- Every burst near its confirmed tick ends within the history. The walk of its plan over the
inputs has no more rounds than the history has ticks. Whatever the bodies do, the driver stops
asking for another one after as many, and with a quiet body the frame returns. A burst that ran has
no more invocations than they cover ticks, and these are the ticks that its first body found
expected, and no more than the history has. -/
theorem burst_ends_within_history (body : Scene τ φ H → Except Fault (Scene τ φ H)) (hs : s.Sound)
    (hb : c.world.confirmed.Built) (hn : s.Close c) :
    (c.world.confirmed.isValid = true →
      ∃ met, s.WalksOver c met ∧ met.length ≤ c.world.config.history.toNat) ∧
    Bracket.loop .repeatWhile hooks (Bracket.besideState body)
      (c.world.config.history.toNat + 1) ((Bracket.idle s).beside c) ≠ none ∧
    (Quiet body → ∃ turn, run (.idle s) c body = .ok turn) ∧
    ∀ turn, run (.idle s) c body = .ok turn → turn.found ≠ [] →
      turn.count = turn.invocations.length ∧
      turn.invocations.length ≤ cover turn.invocations ∧
      (∃ x, turn.found.head? = some x ∧
        cover turn.invocations = x.world.time.expectedTicks.toNat) ∧
      cover turn.invocations ≤ c.world.config.history.toNat := by
  refine ⟨fun hv => exists_walksOver hs (hb.onCircle hv), loop_ne_none hs hb hn body,
    fun hq => exists_turn hq hs hb hn, fun turn hrun hfound => ?_⟩
  obtain ⟨oldest, start, near, r, s', hc, hplan, hroute, hentry, hcourse, -⟩ :=
    exists_course hs hb hn hrun hfound
  obtain ⟨x, hhead, hexpected⟩ := hcourse.exists_head hfound
  have hle : 0 ≤ c.world.confirmed.target.distance start :=
    hroute.distance_nonneg List.mem_cons_self
  have hpending := pending_entered (s := s) hle near
  rcases run_cases (keeps_true body) trivial hs hc hroute hentry hrun with
    ⟨-, -, rfl⟩ | ⟨-, is, s₁, _, c₁, hreplay, hinv, hcount, -⟩
  · exact absurd rfl hfound
  obtain ⟨hlength, hrest⟩ := cover_trailings s₁ c₁
  rw [hreplay.frame_entered.2.1] at hrest
  have hwhole : (cover is : Int) = c.world.confirmed.target.distance start := hreplay.cover_eq
  have hcover : cover turn.invocations = (s.entered c start near).pending := by
    rw [hinv, cover_append]
    omega
  refine ⟨hcount, ?_, ⟨x, hhead, ?_⟩, ?_⟩
  · have := hreplay.tiles.length_le
    rw [hinv, cover_append, List.length_append]
    omega
  · rw [hcover, hexpected]
    exact (toNat_expectedTicks hle near).symm
  · rw [hcover]
    exact hplan.pending_le hs hc hroute

/-- Toward the middle of tick `11`, with state of tick `7` and input of tick `9`, there is a burst
within the history. -/
theorem burst_ends_within_history_client :
    ∃ turn, run (.idle (initial.recorded [ofIndex 7] [ofIndex 9]))
        (Scene.client Config.standard (Confirmed.inProgress (ofIndex 11) Fraction.half)) .ok =
          .ok turn ∧
      turn.found ≠ [] ∧ turn.invocations.length ≤ cover turn.invocations ∧
      cover turn.invocations ≤ (Config.standard : Config Float Float32).history.toNat ∧
      ∃ met, (initial.recorded [ofIndex 7] [ofIndex 9]).WalksOver
          (Scene.client Config.standard (Confirmed.inProgress (ofIndex 11) Fraction.half)) met ∧
        met.length ≤ (Config.standard : Config Float Float32).history.toNat := by
  have hs : (initial.recorded [ofIndex 7] [ofIndex 9] : Prediction Float Float32).Sound :=
    sound_recorded_ofIndex [7] [9]
  have hc := OnCircle.ofIndex 11
  have hn : (initial.recorded [ofIndex 7] [ofIndex 9]).Close
      (Scene.client Config.standard (Confirmed.inProgress (ofIndex 11) Fraction.half)) :=
        ⟨by decide, by decide⟩
  obtain ⟨hwalk, -, hreturns, hends⟩ :=
    burst_ends_within_history .ok hs (.inProgress (Or.inr hc) _) hn
  obtain ⟨turn, hrun⟩ := hreturns fun c => ⟨c, rfl, rfl, rfl⟩
  obtain ⟨-, _, _, -, hroute, hentry⟩ := exists_near_entry hs hc (by decide) (hn.noneFar hc)
  have hfound := (found_ne_nil_iff hs hc hroute hentry hrun).mpr (Or.inr (by decide))
  obtain ⟨-, hlength, -, hcover⟩ := hends turn hrun hfound
  exact ⟨turn, hrun, hfound, hlength, hcover, hwalk (by decide)⟩

end Metronome.Prediction
