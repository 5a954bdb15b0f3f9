import Metronome.Proofs.Prediction.FirstTime
import Metronome.Proofs.Prediction.Reachable
import Mathlib.Data.List.Basic

/-!
# Frames in a row

Frames on a new driver, with any ticks recorded between them. A frame is admissible if its ticks
belong to a cluster and it neither forgets what was predicted nor finds it past the history. Over
admissible frames no tick is predicted for the first time twice, and none is left out: the new
batches tile the way from the first target to the newest one, which is the last full tick
(`predicts_each_tick_once`).
-/

namespace Metronome

open Tick

variable {τ φ H : Type}

/-- A frame: the history that it finds, where it runs, the body of its invocations,
and what it came to. -/
structure Round (τ φ H : Type) where
  history : History
  scene : Scene τ φ H
  body : Scene τ φ H → Except Fault (Scene τ φ H)
  turn : Bracket.Turn (Prediction τ φ) (Scene τ φ H)

/-- The target of the frame, if it has a confirmed tick. -/
def Round.target? [Fraction φ] (r : Round τ φ H) : Option Tick :=
  if r.scene.world.confirmed.isValid then some r.scene.world.confirmed.target else none

/-- The invocations of frames in a row that are flagged as new. -/
def predicted (rounds : List (Round τ φ H)) : List (Invocation τ φ) :=
  rounds.flatMap fun r => firstTimes r.turn.invocations

theorem predicted_snoc (rounds : List (Round τ φ H)) (r : Round τ φ H) :
    predicted (rounds ++ [r]) = predicted rounds ++ firstTimes r.turn.invocations := by
  simp [predicted]

/-- A tick of a list that no other is newer than. -/
def IsNewest (ts : List Tick) (t : Tick) : Prop :=
  t ∈ ts ∧ ∀ u ∈ ts, 0 ≤ t.distance u

section Targets

variable [Fraction φ]

/-- The targets of frames in a row. -/
def targets (rounds : List (Round τ φ H)) : List Tick :=
  rounds.filterMap Round.target?

theorem targets_snoc_of_isValid {r : Round τ φ H} (hv : r.scene.world.confirmed.isValid = true)
    (rounds : List (Round τ φ H)) :
    targets (rounds ++ [r]) = targets rounds ++ [r.scene.world.confirmed.target] := by
  simp [targets, Round.target?, hv]

theorem targets_snoc_of_not_isValid {r : Round τ φ H} (hv : r.scene.world.confirmed.isValid = false)
    (rounds : List (Round τ φ H)) : targets (rounds ++ [r]) = targets rounds := by
  simp [targets, Round.target?, hv]

end Targets

namespace Prediction

variable [Seconds τ] [Fraction φ] [Clock τ φ] [Host H τ] {Q : Prediction τ φ → Scene τ φ H → Prop}

/-- Frames in a row on a new driver, and the driver after them. -/
inductive Rounds (Q : Prediction τ φ → Scene τ φ H → Prop) :
    List (Round τ φ H) → Prediction τ φ → Prop
  /-- Before the first frame. -/
  | nil : Rounds Q [] initial
  /-- One frame more. -/
  | snoc {rounds : List (Round τ φ H)} {r : Round τ φ H} {s s' : Prediction τ φ}
      (before : Rounds Q rounds s)
      (admissible : Q (s.withHistory r.history) r.scene)
      (runs : run (.idle (s.withHistory r.history)) r.scene r.body = .ok r.turn)
      (ends : r.turn.driver = .idle s') : Rounds Q (rounds ++ [r]) s'

/-- A frame over the ticks of a set, that does not forget and does not find its last full
tick past the history. -/
structure Admissible (S : Set Tick) (s : Prediction τ φ) (c : Scene τ φ H) : Prop where
  built : c.world.confirmed.Built
  confirmed : c.world.confirmed.isValid = true → c.world.confirmed.tick ∈ S
  applied : ∀ t ∈ s.history.applied.ticks, t ∈ S
  inputs : ∀ t ∈ s.history.inputs.ticks, t ∈ S
  ghost : c.world.confirmed.isValid = true → ¬LacksGhost c
  fresh : c.world.confirmed.isValid = true → s.Fresh c

/-- What frames in a row come to: the last full tick is the newest target, and the new batches tile
the way to it from the first one. -/
structure Account (S : Set Tick) (rounds : List (Round τ φ H)) (lastFull : Tick) : Prop where
  around : ∀ t ∈ targets rounds, Around S t
  none : targets rounds = [] → lastFull = Tick.invalid ∧ predicted rounds = []
  isNewest : targets rounds ≠ [] → IsNewest (targets rounds) lastFull
  tiles : ∀ first, (targets rounds).head? = some first → Tiles first (predicted rounds) lastFull
  cover_eq : ∀ first, (targets rounds).head? = some first →
    (cover (predicted rounds) : Int) = lastFull.distance first

variable {S : Set Tick} {rounds : List (Round τ φ H)} {r : Round τ φ H} {s s' : Prediction τ φ}

omit [Seconds τ] [Clock τ φ] [Host H τ] in
theorem Account.regular {lastFull : Tick} (h : Account S rounds lastFull) :
    lastFull = Tick.invalid ∨ Around S lastFull := by
  by_cases hnil : targets rounds = []
  · exact Or.inl (h.none hnil).1
  · exact Or.inr (h.around _ (h.isNewest hnil).1)

omit [Seconds τ] [Clock τ φ] [Host H τ] in
theorem Account.held {history : History} {c : Scene τ φ H} (h : Account S rounds s.lastFull)
    (hq : Admissible S (s.withHistory history) c) : Held S (s.withHistory history) :=
  ⟨hq.applied, hq.inputs, h.regular⟩

omit [Seconds τ] [Clock τ φ] [Host H τ] in
theorem Account.congr {more : List (Round τ φ H)} {lastFull : Tick} (h : Account S rounds lastFull)
    (ht : targets more = targets rounds) (hp : predicted more = predicted rounds) :
    Account S more lastFull :=
  ⟨ht ▸ h.around, by rw [ht, hp]; exact h.none, by rw [ht]; exact h.isNewest,
    by rw [ht, hp]; exact h.tiles, by rw [ht, hp]; exact h.cover_eq⟩

/-- The newer of two ticks around a cluster is the newest, once the target has joined. -/
theorem isNewest_snoc (hS : Cluster S) {ts : List Tick} {old target : Tick} (h : IsNewest ts old)
    (haround : ∀ t ∈ ts, Around S t) (htarget : Around S target) :
    IsNewest (ts ++ [target]) (newest old target) := by
  have hold := haround _ h.1
  have hseed : seeded old target = old := if_pos (hS.onCircle_of_around hold).isValid
  have hself := distance_self target
  have hcomm := hS.distance_comm htarget hold
  unfold newest
  rw [hseed]
  split
  · refine ⟨List.mem_append_right _ (List.mem_singleton_self _), fun u hu => ?_⟩
    rcases List.mem_append.mp hu with hu | hu
    · have hsum := hS.distance_add htarget hold (haround u hu)
      have := h.2 u hu
      omega
    · rw [List.mem_singleton.mp hu]
      omega
  · refine ⟨List.mem_append_left _ h.1, fun u hu => ?_⟩
    rcases List.mem_append.mp hu with hu | hu
    · exact h.2 u hu
    · rw [List.mem_singleton.mp hu]
      omega

omit [Seconds τ] [Clock τ φ] [Host H τ] in
/-- The first frame with a confirmed tick opens the account: its target is the last full tick,
and nothing is new. -/
theorem Account.first {target new : Tick} {r : Round τ φ H} (h : Account S rounds Tick.invalid)
    (hts : targets (rounds ++ [r]) = targets rounds ++ [target]) (hnil : targets rounds = [])
    (htarget : Around S target) (hnew : new = newest Tick.invalid target)
    (htiles : Tiles (seeded Tick.invalid target) (firstTimes r.turn.invocations) new)
    (hcover : (cover (firstTimes r.turn.invocations) : Int) =
      new.distance (seeded Tick.invalid target)) :
    Account S (rounds ++ [r]) new := by
  have hseed : seeded Tick.invalid target = target := rfl
  rw [newest, hseed, ite_self] at hnew
  rw [hseed] at htiles hcover
  rw [hnil, List.nil_append] at hts
  have hfirst : predicted (rounds ++ [r]) = firstTimes r.turn.invocations := by
    rw [predicted_snoc, (h.none hnil).2, List.nil_append]
  constructor
  all_goals rw [hts]
  · exact fun t ht => List.mem_singleton.mp ht ▸ htarget
  · exact fun hno => absurd hno (List.cons_ne_nil _ _)
  · refine fun _ => ⟨hnew ▸ List.mem_singleton_self _, fun u hu => ?_⟩
    rw [List.mem_singleton.mp hu, hnew, distance_self]
  · rintro first ⟨⟩
    rwa [hfirst]
  · rintro first ⟨⟩
    rwa [hfirst]

omit [Seconds τ] [Clock τ φ] [Host H τ] in
/-- Every later frame with a confirmed tick keeps the account. -/
theorem Account.next (hS : Cluster S) {target old new : Tick} {r : Round τ φ H}
    (h : Account S rounds old) (hts : targets (rounds ++ [r]) = targets rounds ++ [target])
    (hne : targets rounds ≠ []) (htarget : Around S target) (hnew : new = newest old target)
    (htiles : Tiles (seeded old target) (firstTimes r.turn.invocations) new)
    (hcover : (cover (firstTimes r.turn.invocations) : Int) = new.distance (seeded old target)) :
    Account S (rounds ++ [r]) new := by
  have hnewest := h.isNewest hne
  have hold := h.around _ hnewest.1
  have hseed : seeded old target = old := if_pos (hS.onCircle_of_around hold).isValid
  have haround : ∀ t ∈ targets rounds ++ [target], Around S t := by
    intro t ht
    rcases List.mem_append.mp ht with ht | ht
    · exact h.around t ht
    · exact List.mem_singleton.mp ht ▸ htarget
  have hlast := isNewest_snoc hS hnewest h.around htarget
  rw [← hnew] at hlast
  rw [hseed] at htiles hcover
  constructor
  all_goals rw [hts]
  · exact haround
  · exact fun hno => absurd (List.append_eq_nil_iff.mp hno).1 hne
  · exact fun _ => hlast
  · intro first hfirst
    rw [List.head?_append_of_ne_nil _ hne] at hfirst
    rw [predicted_snoc]
    exact tiles_append.mpr ⟨old, h.tiles first hfirst, htiles⟩
  · intro first hfirst
    rw [List.head?_append_of_ne_nil _ hne] at hfirst
    have hbegin := h.cover_eq first hfirst
    have hsum :=
      hS.distance_add (haround _ hlast.1) hold (h.around first (List.mem_of_head? hfirst))
    rw [predicted_snoc, cover_append]
    omega

/-- Admissible frames in a row keep the account. -/
theorem Rounds.account (hS : Cluster S) (h : Rounds (Admissible S) rounds s) :
    Account S rounds s.lastFull := by
  induction h with
  | nil =>
    refine ⟨fun t ht => ?_, fun _ => ⟨rfl, rfl⟩, fun hne => absurd rfl hne, fun first hfirst => ?_,
      fun first hfirst => ?_⟩
    · simp [targets] at ht
    · simp [targets] at hfirst
    · simp [targets] at hfirst
  | @snoc rounds r s s' _ hq hrun hend ih =>
    by_cases hv : r.scene.world.confirmed.isValid = true
    · have hcS := hq.confirmed hv
      obtain ⟨s₁, hdriver, -, hlast, htiles, hcover⟩ :=
        frame_advances hS (ih.held hq) hcS (hq.ghost hv) (hq.fresh hv) hrun
      rw [hend] at hdriver
      cases hdriver
      have hts := targets_snoc_of_isValid hv rounds
      rw [withHistory_lastFull] at hlast htiles hcover
      by_cases hnil : targets rounds = []
      · have hinvalid := (ih.none hnil).1
        rw [hinvalid] at ih hlast htiles hcover
        exact ih.first hts hnil (around_target hcS) hlast htiles hcover
      · exact ih.next hS hts hnil (around_target hcS) hlast htiles hcover
    · rw [Bool.not_eq_true] at hv
      have hturn := Except.ok.inj ((run_of_not_isValid hv r.body).symm.trans hrun)
      rw [← hturn] at hend
      cases hend
      refine ih.congr (targets_snoc_of_not_isValid hv rounds) ?_
      rw [predicted_snoc, ← hturn]
      exact List.append_nil _

/-- After every frame of a row the driver has the frames up to it behind it. -/
theorem Rounds.after_each {Q : Prediction τ φ → Scene τ φ H → Prop} (h : Rounds Q rounds s) :
    ∀ before r after, rounds = before ++ r :: after →
      ∃ s₁, r.turn.driver = .idle s₁ ∧ Rounds Q (before ++ [r]) s₁ := by
  induction h with
  | nil =>
    intro before r after hsplit
    cases before <;> cases hsplit
  | @snoc rounds last s s' hbefore hq hrun hend ih =>
    intro before r after hsplit
    rcases List.eq_nil_or_concat after with rfl | ⟨after', last', rfl⟩
    · obtain ⟨rfl, hlast⟩ := List.append_inj' hsplit rfl
      obtain rfl := List.singleton_inj.mp hlast
      exact ⟨s', hend, .snoc hbefore hq hrun hend⟩
    · have hsplit : rounds ++ [last] = (before ++ r :: after') ++ [last'] := by simpa using hsplit
      exact ih before r after' (List.append_inj' hsplit rfl).1

variable [LawfulFraction φ]

/-- With a quiet body any admissible frame can follow. -/
theorem Rounds.exists_snoc (hS : Cluster S) (h : Rounds (Admissible S) rounds s) {history : History}
    {c : Scene τ φ H} {body : Scene τ φ H → Except Fault (Scene τ φ H)}
    (hq : Admissible S (s.withHistory history) c) (hbody : Quiet body) :
    ∃ turn s', Rounds (Admissible S) (rounds ++ [⟨history, c, body, turn⟩]) s' := by
  by_cases hv : c.world.confirmed.isValid = true
  · have hheld := (h.account hS).held hq
    have hcS := hq.confirmed hv
    obtain ⟨turn, hrun⟩ :=
      exists_run hbody (hheld.sound hS) hq.built (hS.onCircle _ hcS) (hq.ghost hv)
        (hheld.noneFar hS hcS)
    obtain ⟨s', hdriver, -⟩ := frame_advances hS hheld hcS (hq.ghost hv) (hq.fresh hv) hrun
    exact ⟨turn, s', h.snoc hq hrun hdriver⟩
  · have hrun := run_of_not_isValid (s := s.withHistory history) (by simpa using hv) body
    exact ⟨_, _, .snoc h hq hrun rfl⟩

/-- Over admissible frames in a row no tick is predicted for the first time twice,
and none is left out. -/
theorem predicts_each_tick_once (hS : Cluster S) (h : Rounds (Admissible S) rounds s) :
    (targets rounds = [] → s.lastFull = Tick.invalid ∧ predicted rounds = []) ∧
    (∀ first, (targets rounds).head? = some first →
      IsNewest (targets rounds) s.lastFull ∧ Tiles first (predicted rounds) s.lastFull ∧
      (cover (predicted rounds) : Int) = s.lastFull.distance first ∧
      ∀ t : Tick, t.OnCircle → (predicted rounds).countP (fun i => decide (Covers i t)) =
        if 0 ≤ s.lastFull.distance t ∧ s.lastFull.distance t < s.lastFull.distance first then 1
        else 0) ∧
    (∀ before r after, rounds = before ++ r :: after → targets (before ++ [r]) ≠ [] →
      ∃ s₁, r.turn.driver = .idle s₁ ∧ IsNewest (targets (before ++ [r])) s₁.lastFull) ∧
    ∀ (history : History) (c : Scene τ φ H) (body : Scene τ φ H → Except Fault (Scene τ φ H)),
      Admissible S (s.withHistory history) c → Quiet body →
      ∃ turn s', Rounds (Admissible S) (rounds ++ [⟨history, c, body, turn⟩]) s' := by
  have hall := h.account hS
  refine ⟨hall.none, fun first hfirst => ?_, fun before r after hsplit hne => ?_,
    fun _ _ _ hq hbody => h.exists_snoc hS hq hbody⟩
  · have hne : targets rounds ≠ [] := fun hnil => by simp [hnil] at hfirst
    have hnewest := hall.isNewest hne
    have htiles := hall.tiles first hfirst
    have hcover := hall.cover_eq first hfirst
    refine ⟨hnewest, htiles, hcover, fun t ht => ?_⟩
    have hlt := distance_lt s.lastFull first
    rw [htiles.countP_covers (hS.onCircle_of_around (hall.around _ hnewest.1)) (by omega) ht,
      hcover]
  · obtain ⟨s₁, hdriver, hrounds⟩ := h.after_each before r after hsplit
    exact ⟨s₁, hdriver, (hrounds.account hS).isNewest hne⟩

/-- Toward the middle of tick `10`, and then with state of tick `8` to tick `13`. -/
theorem predicts_each_tick_once_client :
    ∃ (rounds : List (Round Float Float32 (TallyHost Float))) (s : Prediction Float Float32),
      targets rounds = [ofIndex 9, ofIndex 13] ∧ s.lastFull = ofIndex 13 ∧
        Tiles (ofIndex 9) (predicted rounds) (ofIndex 13) ∧ cover (predicted rounds) = 4 := by
  let S : Set Tick := {t | t ∈ [ofIndex 8, ofIndex 10, ofIndex 13]}
  have hS : Cluster S := by
    refine ⟨fun t ht => ?_, ?_⟩
    · have h : t = ofIndex 8 ∨ t = ofIndex 10 ∨ t = ofIndex 13 := by simpa [S] using ht
      rcases h with rfl | rfl | rfl <;> exact OnCircle.ofIndex _
    · show ∀ t ∈ [ofIndex 8, ofIndex 10, ofIndex 13],
        ∀ u ∈ [ofIndex 8, ofIndex 10, ofIndex 13], t.Near u
      decide
  have hquiet : Quiet (.ok : Scene Float Float32 (TallyHost Float) → _) :=
    fun c => ⟨c, rfl, rfl, rfl⟩
  obtain ⟨c₁, hv₁, ht₁, hq₁⟩ : ∃ c : Scene Float Float32 (TallyHost Float),
      c.world.confirmed.isValid = true ∧ c.world.confirmed.target = ofIndex 9 ∧
        Admissible S (initial.withHistory History.empty) c :=
    ⟨Scene.client Config.standard (Confirmed.inProgress (ofIndex 10) Fraction.half),
      by decide, by decide, .inProgress (Or.inr (OnCircle.ofIndex 10)) _,
      fun _ => by simp [S, Scene.client, Confirmed.inProgress],
      by decide, by decide, fun _ => by decide, fun _ hv => absurd hv (by decide)⟩
  obtain ⟨history, c₂, hv₂, ht₂, hq₂⟩ :
      ∃ (history : History) (c : Scene Float Float32 (TallyHost Float)),
        c.world.confirmed.isValid = true ∧ c.world.confirmed.target = ofIndex 13 ∧
        ∀ s : Prediction Float Float32, s.lastFull = ofIndex 9 →
          Admissible S (s.withHistory history) c := by
    refine ⟨⟨TickSet.empty.insert (ofIndex 8), TickSet.empty⟩,
      Scene.client Config.standard (Confirmed.whole (ofIndex 13)), by decide, by decide,
      fun s hs => ?_⟩
    refine ⟨.whole (Or.inr (OnCircle.ofIndex 13)),
      fun _ => by simp [S, Scene.client, Confirmed.whole], fun t ht => ?_,
      by simp [Prediction.withHistory, TickSet.empty], fun _ => by decide, fun _ _ => ?_⟩
    · obtain rfl : t = ofIndex 8 := List.mem_singleton.mp ht
      simp [S]
    · rw [withHistory_lastFull, hs]
      decide
  obtain ⟨turn₁, s₁, hrounds₁⟩ := (Rounds.nil (Q := Admissible S)).exists_snoc hS hq₁ hquiet
  have hts₁ := targets_snoc_of_isValid (r := ⟨History.empty, c₁, .ok, turn₁⟩) hv₁ []
  rw [ht₁] at hts₁
  obtain ⟨-, hall₁, -⟩ := predicts_each_tick_once hS hrounds₁
  rw [hts₁] at hall₁
  have hlast₁ := List.mem_singleton.mp (hall₁ (ofIndex 9) rfl).1.1
  obtain ⟨turn₂, s₂, hrounds₂⟩ := hrounds₁.exists_snoc hS (hq₂ s₁ hlast₁) hquiet
  have hts₂ := targets_snoc_of_isValid (r := ⟨history, c₂, .ok, turn₂⟩) hv₂
    ([] ++ [⟨History.empty, c₁, .ok, turn₁⟩])
  rw [hts₁, ht₂] at hts₂
  obtain ⟨-, hall₂, -⟩ := predicts_each_tick_once hS hrounds₂
  rw [hts₂] at hall₂
  obtain ⟨hnewest, htiles, hcover, -⟩ := hall₂ (ofIndex 9) rfl
  have hlast₂ : s₂.lastFull = ofIndex 13 := by
    rcases List.mem_pair.mp hnewest.1 with h | h
    · have hbehind := hnewest.2 (ofIndex 13) (by simp)
      rw [h] at hbehind
      exact absurd hbehind (by decide)
    · exact h
  rw [hlast₂] at htiles hcover
  refine ⟨_, s₂, hts₂, hlast₂, htiles, ?_⟩
  have hdist : (ofIndex 13).distance (ofIndex 9) = 4 := by decide
  omega

end Prediction

end Metronome
