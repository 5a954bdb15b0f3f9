import Metronome.Proofs.Prediction.Frame
import Metronome.Proofs.Presentation
import Metronome.Proofs.Server

/-!
# Visits

Three drivers act on a world, each through hooks of its own: a scope is opened in one hook and
closed in another, and an event is logged here and the time record written there. `Visit` is what
all of this comes to for the world. A driver skips the frame and says why; or it enters, opens the
world for one invocation after another, each with its body inside, and exits; or, if it is the
presentation, it opens the world once. Whatever holds of visits holds of all three drivers
(`Server.visit_of_run`, `Prediction.visit_of_run`, `Presentation.visit_of_run`).
-/

namespace Metronome

variable {τ φ H : Type}

/-- The time record tells an invocation. -/
structure Invocation.ToldBy (i : Invocation τ φ) (t : TimeRecord τ φ) : Prop where
  serverTick : t.serverTick = i.tick
  serverFraction : t.serverFraction = i.fraction
  batch : t.batch = i.batch
  flags : t.flags = i.flags
  elapsed : t.elapsed = i.window.elapsed

namespace World

variable [Host H τ]

/-- The world in the scope of an invocation, under a time record. -/
def during (w : World τ φ H) (t : TimeRecord τ φ) (i : Invocation τ φ) : World τ φ H :=
  { w with time := t }.invoke i

@[simp] theorem time_during (w : World τ φ H) (t : TimeRecord τ φ) (i : Invocation τ φ) :
    (w.during t i).time = t :=
  rfl

@[simp] theorem past_during (w : World τ φ H) (t : TimeRecord τ φ) (i : Invocation τ φ) :
    (w.during t i).past = .invoked i :: w.past :=
  rfl

@[simp] theorem invocation?_during (w : World τ φ H) (t : TimeRecord τ φ) (i : Invocation τ φ) :
    (w.during t i).invocation? = some i :=
  rfl

variable (d : Driver) (runs : World τ φ H → World τ φ H → Prop)

/-- Invocations of a burst, one after another: the world before them, what their bodies find, and
the world after them. A body runs from what it finds to what it leaves. -/
inductive Stretch : World τ φ H → List (World τ φ H) → World τ φ H → Prop
  /-- No invocation. -/
  | nil {w : World τ φ H} : Stretch w [] w
  /-- An invocation, and those after it. -/
  | invoke {w w₁ w₂ w' : World τ φ H} {found : List (World τ φ H)} (i : Invocation τ φ)
      (t : TimeRecord τ φ) (driver : i.driver = d) (told : i.ToldBy t)
      (counts : d = .prediction → t.predictedIndex.toNat = w.time.predictedIndex.toNat + 1)
      (ran : runs (w.during t i) w₁) (closes : w₁.exitScope = .ok w₂)
      (rest : Stretch w₂ found w') : Stretch w (w.during t i :: found) w'

/-- A frame of a driver: the world before it, what its bodies find, and the world after it. -/
inductive Visit (w : World τ φ H) : List (World τ φ H) → World τ φ H → Prop
  /-- The driver skips the frame. -/
  | skipped (reason : SkipReason) : Visit w [] (w.record (.skipped d reason))
  /-- It runs a burst, and counts the invocations. -/
  | burst {w' : World τ φ H} {found : List (World τ φ H)} (bursts : d ≠ .presentation)
      (t t' : TimeRecord τ φ) (tick : Tick) (n : UInt32)
      (fresh : d = .prediction → t.predictedIndex = 0)
      (stretch : Stretch d runs ({ w with time := t }.record (.entered d tick)) found w')
      (ran : found ≠ []) (count : n.toNat = found.length) :
      Visit w found ({ w' with time := t' }.record (.exited d n))
  /-- It runs one invocation. -/
  | single {w₁ w₂ : World τ φ H} (presents : d = .presentation) (i : Invocation τ φ)
      (t t' : TimeRecord τ φ) (driver : i.driver = d) (ran : runs (w.during t i) w₁)
      (closes : w₁.exitScope = .ok w₂) : Visit w [w.during t i] { w₂ with time := t' }

end World

open World

/-! ## The server -/

namespace Server

theorem toNat_invocations_counted {s : Server τ} (h : Counting s) (hpos : 0 < s.remaining.toNat) :
    s.counted.invocations.toNat = s.invocations.toNat + 1 := by
  have hnext : s.counted.remaining.toNat = s.remaining.toNat - 1 := toNat_remaining_sub hpos
  have hcount := h.count
  have hcount' : s.counted.invocations.toNat + s.counted.remaining.toNat = s.plan.total.toNat :=
    (h.counted hpos).count
  omega

variable [Seconds τ] [Fraction φ]

theorem toldBy_nextTime (s : Server τ) (w : World τ φ H) :
    (s.invocation w).ToldBy (s.nextTime w) :=
  ⟨rfl, rfl, rfl, rfl, rfl⟩

variable [Host H τ] {body : World τ φ H → Except Fault (World τ φ H)}

/-- A batch in front of a stretch of batches. -/
theorem stretch_cons (s : Server τ) {w w₁ w₂ w' : World τ φ H} {found : List (World τ φ H)}
    (hbody : body (s.opened w) = .ok w₁) (hexit : w₁.exitScope = .ok w₂)
    (h : Stretch .server (fun w w' => body w = .ok w') w₂ found w') :
    Stretch .server (fun w w' => body w = .ok w') w (s.opened w :: found) w' :=
  .invoke (s.invocation w) (s.nextTime w) rfl (s.toldBy_nextTime w) Driver.noConfusion hbody hexit h

/-- Queried after a body, a driver that counts runs the rest of its burst. -/
theorem stretch_of_trace {b b' : Bracket (Server τ × World τ φ H)}
    {found : List (Server τ × World τ φ H)}
    (h : Bracket.Trace .repeatWhile hooks (Bracket.besideState body) b found b') :
    b.active = true → Counting b.state.1 →
      ∃ w w' s', b.state.2.exitScope = .ok w ∧
        Stretch .server (fun w w' => body w = .ok w') w (found.map Prod.snd) w' ∧
        s'.invocations.toNat = b.state.1.invocations.toNat + found.length ∧
        b' = ⟨false, (s', s'.left w')⟩ := by
  induction h with
  | @declined b b' hq =>
    obtain ⟨active, s, w⟩ := b
    rintro rfl hcounting
    rcases hcounting.query_cases w with ⟨heq, -⟩ | ⟨w₁, hexit, ⟨-, heq⟩ | ⟨-, heq⟩⟩
    · cases heq.symm.trans hq
    · cases heq.symm.trans hq
    · cases heq.symm.trans hq
      exact ⟨w₁, w₁, s, hexit, .nil, rfl, rfl⟩
  | @ran b b₁ b' x found hq hx _ ih =>
    obtain ⟨active, s, w⟩ := b
    rintro rfl hcounting
    rcases hcounting.query_cases w with ⟨heq, -⟩ | ⟨w₁, hexit, ⟨hpos, heq⟩ | ⟨-, heq⟩⟩
    · cases heq.symm.trans hq
    · cases heq.symm.trans hq
      obtain ⟨y, hbody, rfl⟩ := Bracket.besideState_eq_ok_iff.mp hx
      obtain ⟨w₂, w', s', hexit₂, hstretch, hcount, rfl⟩ := ih rfl (hcounting.counted hpos)
      refine ⟨w₁, w', s', hexit, s.stretch_cons hbody hexit₂ hstretch, ?_, rfl⟩
      have hcounted : s.counted.invocations.toNat = s.invocations.toNat + 1 :=
        toNat_invocations_counted hcounting hpos
      calc s'.invocations.toNat
        _ = s.counted.invocations.toNat + found.length := hcount
        _ = s.invocations.toNat + (found.length + 1) := by omega
    · cases heq.symm.trans hq

/-- A frame of the server is a visit. -/
theorem visit_of_run {s : Server τ} {w : World τ φ H}
    {turn : Bracket.Turn (Server τ) (World τ φ H)} (hrun : run (.idle s) w body = .ok turn) :
    turn.driver.active = false ∧
      Visit .server (fun w w' => body w = .ok w') w turn.found turn.context := by
  obtain ⟨found, b', htrace, -, rfl⟩ := Bracket.runIn_eq_ok_iff.mp hrun
  by_cases hnone : (s.planned w).total = 0
  · cases htrace with
    | declined hq =>
      cases (query_idle_of_eq_zero hnone).symm.trans hq
      exact ⟨rfl, .skipped .noSteps⟩
    | ran hq => cases (query_idle_of_eq_zero hnone).symm.trans hq
  · have hpos : 0 < (s.begun w).remaining.toNat :=
      Nat.pos_of_ne_zero fun hzero => hnone (UInt32.toNat_inj.mp hzero)
    cases htrace with
    | declined hq => cases (query_idle_of_ne_zero hnone).symm.trans hq
    | ran hq hx htrace =>
      cases (query_idle_of_ne_zero hnone).symm.trans hq
      obtain ⟨y, hbody, rfl⟩ := Bracket.besideState_eq_ok_iff.mp hx
      have hbegun := s.counting_begun w
      obtain ⟨w₂, w', s', hexit, hstretch, hcount, rfl⟩ :=
        stretch_of_trace htrace rfl (hbegun.counted hpos)
      have hfirst := toNat_invocations_counted hbegun hpos
      have hzero : (s.begun w).invocations.toNat = 0 := rfl
      have hburst := (s.begun w).stretch_cons hbody hexit hstretch
      refine ⟨rfl, .burst Driver.noConfusion w.time _ w.time.serverTick s'.invocations
        Driver.noConfusion hburst (List.cons_ne_nil _ _) ?_⟩
      rw [hcount]
      show (s.begun w).counted.invocations.toNat + _ = (_ :: _).length
      rw [hfirst, hzero, List.length_cons, List.length_map]
      omega

end Server

/-! ## Prediction -/

namespace Prediction

/-- What the decision of a frame comes to: it is skipped, or a burst begins. -/
inductive Decides (c : Scene τ φ H) : Bool × Prediction τ φ × Scene τ φ H → Prop
  /-- The frame is skipped. -/
  | skips (reason : SkipReason) (s : Prediction τ φ) : Decides c (skip reason s c)
  /-- A burst begins, with no invocation yet. -/
  | begins {s : Prediction τ φ} {c' : Scene τ φ H} (n : UInt32) (none : s.invocations = 0)
      (world : c'.world = { c.world with
        time := { c.world.time with expectedTicks := n } }.record
          (.entered .prediction c.world.confirmed.tick)) : Decides c (true, s, c')

variable [Seconds τ] [Fraction φ] [Clock τ φ] {s : Prediction τ φ} {c : Scene τ φ H}
  {x : Bool × Prediction τ φ × Scene τ φ H}

theorem decides_of_wantsEntry (h : wantsEntry (s, c) = .ok x) : Decides c x := by
  rcases skips_or_begins h with
    ⟨reason, s₁, rfl⟩ | ⟨s₁, target, fresh, oldest, ahead, -, -, h⟩
  · exact .skips reason s₁
  · obtain ⟨n, -, h⟩ := bind_eq_ok_iff.mp h
    cases h
    exact .begins n rfl rfl

variable [Host H τ]

/-- A step opens the scene with an invocation of its own, and counts it. -/
theorem exists_opened {s' : Prediction τ φ} {c' : Scene τ φ H} (h : step (s, c) = .ok (s', c')) :
    ∃ i ghosts, i.driver = .prediction ∧ Fits s c i ∧ c' = c.opened i ghosts ∧
      s'.invocations.toNat = s.invocations.toNat + 1 := by
  obtain ⟨s₁, ghosts, leg, hleg⟩ := exists_nextLeg h
  have hinv : s₁.invocations = s.invocations :=
    (congrArg invocations (frame_of_nextLeg hleg) :)
  obtain ⟨hfits, rfl, rfl⟩ := (step_eq_ok_iff hleg).mp h
  refine ⟨_, ghosts, rfl, hfits, rfl, ?_⟩
  show (s₁.invocations + 1).toNat = _
  rw [hinv, toNat_add_one hfits.invocations]

/-- What a body does to the world of a scene, beside the predicted entities. -/
def BodyRuns (body : Scene τ φ H → Except Fault (Scene τ φ H)) (w w' : World τ φ H) : Prop :=
  ∃ ghosts ghosts', body ⟨w, ghosts⟩ = .ok ⟨w', ghosts'⟩

variable {body : Scene τ φ H → Except Fault (Scene τ φ H)}

/-- A course is a stretch of invocations, which the driver counts. -/
theorem Course.stretch {x r : Prediction τ φ × Scene τ φ H} {found : List (Scene τ φ H)}
    (h : Course body x found r) :
    Stretch .prediction (BodyRuns body) x.2.world (found.map Scene.world) r.2.world ∧
      r.1.invocations.toNat = x.1.invocations.toNat + found.length := by
  induction h with
  | done => exact ⟨.nil, rfl⟩
  | @leg s s₁ c c₁ c₂ w found r _ hstep hbody hexit _ ih =>
    obtain ⟨hstretch, hcount⟩ := ih
    obtain ⟨i, ghosts, hdriver, hfits, rfl, hcounted⟩ := exists_opened hstep
    have hcounts : (c.world.time.predictedIndex + 1).toNat =
        c.world.time.predictedIndex.toNat + 1 := toNat_add_one hfits.predictedIndex
    constructor
    · exact .invoke i _ hdriver ⟨rfl, rfl, rfl, rfl, rfl⟩ (fun _ => hcounts) ⟨_, _, hbody⟩ hexit
        hstretch
    · calc r.1.invocations.toNat
        _ = s₁.invocations.toNat + found.length := hcount
        _ = s.invocations.toNat + (found.length + 1) := by omega

/-- A frame of the predicted entities is a visit. -/
theorem visit_of_run {turn : Bracket.Turn (Prediction τ φ) (Scene τ φ H)}
    (hrun : run (.idle s) c body = .ok turn) :
    turn.driver.active = false ∧ Visit .prediction (BodyRuns body) c.world
      (turn.found.map Scene.world) turn.context.world := by
  cases run_eq_ok_iff.mp hrun with
  | skipped hentry =>
    cases decides_of_wantsEntry hentry with
    | skips reason => exact ⟨rfl, .skipped reason⟩
  | @burst s₀ s' c₀ c' found r hentry hcourse hsettle =>
    have hmore := (wantsMore_prepared s₀ c₀).trans (begins_of_wantsEntry hentry).2
    obtain ⟨w₀, ghosts⟩ := c₀
    cases decides_of_wantsEntry hentry with
    | begins n hnone hworld =>
      obtain rfl : w₀ = _ := hworld
      obtain ⟨-, -, -, hy⟩ := settle_eq_ok_iff.mp hsettle
      obtain ⟨-, rfl⟩ := Prod.mk.inj hy
      obtain ⟨hstretch, hcount⟩ := hcourse.stretch
      have hran : found.map Scene.world ≠ [] := by
        cases hcourse with
        | done hends => cases hmore.symm.trans hends
        | leg => exact List.cons_ne_nil _ _
      refine ⟨rfl, .burst Driver.noConfusion _ _ _ _ (fun _ => rfl) hstretch hran ?_⟩
      calc r.1.invocations.toNat
        _ = s₀.invocations.toNat + found.length := hcount
        _ = found.length := by rw [hnone]; exact Nat.zero_add _
        _ = (found.map Scene.world).length := (List.length_map _).symm

end Prediction

/-! ## Presentation -/

namespace Presentation

variable [Seconds τ] [Fraction φ] [Clock τ φ] [Host H τ]
  {body : World τ φ H → Except Fault (World τ φ H)}

/-- A presented frame is a visit. -/
theorem visit_of_run {s : Presentation τ φ} {w : World τ φ H}
    {turn : Bracket.Turn (Presentation τ φ) (World τ φ H)}
    (hrun : run (.idle s) w body = .ok turn) :
    turn.driver.active = false ∧
      Visit .presentation (fun w w' => body w = .ok w') w turn.found turn.context := by
  rcases Bracket.runIn_once_cases hrun with
    ⟨s', w', hwants, rfl⟩ | ⟨⟨s₀, w₀⟩, s₁, w₁, w₂, s', w', hwants, henter, hbody, hleave, rfl⟩
  · obtain ⟨⟨pending, now⟩, -, h⟩ := bind_eq_ok_iff.mp hwants
    dsimp only at h
    split at h <;> cases h
    exact ⟨rfl, .skipped .nonPositiveDelta⟩
  · obtain ⟨⟨pending, now⟩, -, h⟩ := bind_eq_ok_iff.mp hwants
    dsimp only at h
    split at h <;> cases h
    cases henter
    obtain ⟨w₃, hexit, h⟩ := bind_eq_ok_iff.mp hleave
    cases h
    exact ⟨rfl, .single rfl _ _ _ rfl hbody hexit⟩

end Presentation

end Metronome
