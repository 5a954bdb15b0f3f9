import Metronome.Prediction.Burst
import Metronome.Proofs.Rotation.Decision

/-!
# A burst in a rotated scene

The batches of a rotated burst are cut where those of the burst are, and carry the same flags
(`nextBatch_alike`, `batchFlags_rotated`). Step by step the driver and its scene stay rotated
(`step_alike`), up to the end; if that misses the confirmed tick, both faults tell so, at rotated
positions (`leave_alike`). Prediction therefore runs alike in a rotated scene (`run_alike`).
-/

namespace Metronome.Prediction

open Metronome.Bracket Tick

variable {n : UInt32} {τ φ H : Type}

/-! ## Batches -/

/-- The second batch is the first one, with the tick that it ends on rotated. -/
inductive Batch.Rotated (n : UInt32) (b : Batch) : Batch → Prop
  /-- Everything else is kept. -/
  | intro {stop : Tick} (hstop : b.stop.Rotated n stop) : Rotated n b { b with stop }

section Batches

variable {start start' point point' lastFull lastFull' stop stop' : Tick}

theorem crosses_alike (hs : start.Rotated n start') (hp : point.Rotated n point')
    (hl : lastFull.Rotated n lastFull') :
    Alike n Eq (crosses start point lastFull) (crosses start' point' lastFull') := by
  refine (hl.isNewerThan hs).bind ?_
  rintro newer _ rfl
  exact .ite Iff.rfl (fun _ => hp.isNewerThan hl) fun _ => .ok rfl

theorem nextBatch_alike (hs : start.Rotated n start') (hp : point.Rotated n point')
    (hl : lastFull.Rotated n lastFull') (budget firstBudget : UInt32) :
    Alike n (Batch.Rotated n) (nextBatch start point lastFull budget firstBudget)
      (nextBatch start' point' lastFull' budget firstBudget) := by
  unfold nextBatch
  dsimp only
  rw [hs.beq_eq hl]
  refine .ite_bind (.same _) (crosses_alike hs hp hl) ?_
  rintro crossing _ rfl
  have hstop := related_ite (p := crossing = true) hl hp
  refine (hstop.since hs).bind ?_
  rintro way _ rfl
  refine .ite Iff.rfl (fun _ => ?_) fun _ => .ok (.intro hstop)
  exact (hs.advance _).bind fun _ _ hcut => .ok (.intro hcut.rotated)

theorem isFirstTime_alike (hl : lastFull.Rotated n lastFull') (hs : stop.Rotated n stop') :
    Alike n Eq (isFirstTime lastFull stop) (isFirstTime lastFull' stop') := by
  unfold isFirstTime
  rw [hl.isValid_eq]
  exact .ite Iff.rfl (fun _ => hs.isNewerThan hl) fun _ => .ok rfl

theorem batchFlags_rotated {confirmed confirmed' target target' : Tick} (hs : stop.Rotated n stop')
    (hc : confirmed.Rotated n confirmed') (ht : target.Rotated n target') (flags : StepFlags)
    (firstTime : Bool) :
    batchFlags flags firstTime stop' confirmed' target' =
      batchFlags flags firstTime stop confirmed target := by
  rw [batchFlags, batchFlags, hs.beq_eq hc, hs.beq_eq ht]

end Batches

/-! ## Invocations -/

/-- The second leg is the first one, with its tick rotated. -/
inductive Leg.Rotated (n : UInt32) (l : Leg τ φ) : Leg τ φ → Prop
  /-- Everything else is kept. -/
  | intro {tick : Tick} (htick : l.tick.Rotated n tick) : Rotated n l { l with tick }

/-- A driver, its entities and a leg, rotated together. -/
def LegAligned (n : UInt32) (x x' : Prediction τ φ × Ghosts × Leg τ φ) : Prop :=
  x.1.Rotated n x'.1 ∧ x.2.1.Rotated n x'.2.1 ∧ x.2.2.Rotated n x'.2.2

section Legs

variable [Seconds τ] [Fraction φ] {s s' : Prediction τ φ} {c c' : Scene τ φ H}

theorem batchLeg_alike (hs : s.Rotated n s') (hc : c.Rotated n c') {point point' : Tick}
    (hp : point.Moved n point') {rest rest' : List Tick} (hr : AllRotated n rest rest') :
    Alike n (LegAligned n) (batchLeg s c point rest) (batchLeg s' c' point' rest') := by
  obtain ⟨hhistory, hlastFull, hstart, -, hconfirmed, htarget⟩ := hs
  obtain ⟨⟨⟨-, -⟩, -, -⟩, hghosts⟩ := hc
  refine (nextBatch_alike hstart hp.rotated hlastFull _ _).bind ?_
  rintro b _ ⟨hstop⟩
  refine (isFirstTime_alike hlastFull hstop).bind ?_
  rintro firstTime _ rfl
  refine (hghosts.enableFrom hstart).bind fun ghosts ghosts' hjoined => ?_
  refine (htarget.since hstop).bind ?_
  rintro age _ rfl
  have hflags := batchFlags_rotated hstop hconfirmed.tick htarget c.world.time.flags firstTime
  dsimp only
  rw [hflags]
  exact .ok ⟨.intro hhistory (related_ite hstop hlastFull) hstop (related_ite (hr.cons hp) hr)
    hconfirmed htarget, hjoined, .intro hstop⟩

variable [Clock τ φ]

omit [Fraction φ] in
theorem partialLeg_alike (hs : s.Rotated n s') (hc : c.Rotated n c') :
    LegAligned n (partialLeg s c) (partialLeg s' c') := by
  obtain ⟨hhistory, hlastFull, hstart, hahead, ⟨htick⟩, htarget⟩ := hs
  obtain ⟨⟨⟨-, -⟩, -, -⟩, hghosts⟩ := hc
  exact ⟨.intro hhistory hlastFull hstart hahead (.intro htick) htarget, hghosts.enableAll,
    .intro htick⟩

theorem nextLeg_alike (hs : s.Rotated n s') (hc : c.Rotated n c') :
    Alike n (LegAligned n) (nextLeg s c) (nextLeg s' c') := by
  have hahead : AllRotated n s.ahead s'.ahead := by
    obtain ⟨-, -, -, hahead, -, -⟩ := hs
    exact hahead
  unfold nextLeg
  generalize s.ahead = ahead at hahead ⊢
  generalize s'.ahead = ahead' at hahead ⊢
  cases hahead.forall₂ with
  | nil => exact .ok (partialLeg_alike hs hc)
  | cons hp hrest => exact batchLeg_alike hs hc hp (.of_forall₂ hrest)

variable [Host H τ]

theorem step_alike (hs : s.Rotated n s') (hc : c.Rotated n c') :
    Alike n (Aligned n) (step (s, c)) (step (s', c')) := by
  have hinvocations : s'.invocations = s.invocations := by
    obtain ⟨-, -, -, -, -, -⟩ := hs
    rfl
  have hindex : c'.world.time.predictedIndex = c.world.time.predictedIndex := by
    obtain ⟨⟨⟨-, -⟩, -, -⟩, -⟩ := hc
    rfl
  unfold step
  dsimp only
  rw [hinvocations, hindex]
  refine (Alike.same _).bind ?_
  rintro invocations _ rfl
  refine (nextLeg_alike hs hc).bind ?_
  rintro ⟨s₁, ghosts, leg⟩ ⟨s₁', ghosts', _⟩ ⟨hs₁, hghosts, ⟨hleg⟩⟩
  obtain ⟨hhistory, hlastFull, hstart, hahead, hconfirmed, htarget⟩ := hs₁
  obtain ⟨⟨⟨-, hshown⟩, hnow, hpast⟩, -⟩ := hc
  refine (Alike.same _).bind ?_
  rintro predictedIndex _ rfl
  refine .ite_bind (.same _) (.same _) ?_
  rintro finals _ rfl
  refine .ok ⟨.intro hhistory hlastFull hstart hahead hconfirmed htarget,
    .intro (.intro (.intro hleg hshown) hnow ?_) hghosts⟩
  exact .cons (.invoked (.intro hleg)) hpast

/-- The first step of a burst. -/
theorem enter_alike (hs : s.Rotated n s') (hc : c.Rotated n c') :
    Alike n (Aligned n) (enter (s, c)) (enter (s', c')) := by
  obtain ⟨hhistory, hlastFull, hstart, hahead, hconfirmed, htarget⟩ := hs
  obtain ⟨⟨⟨hserver, hshown⟩, hnow, hpast⟩, hghosts⟩ := hc
  exact step_alike (.intro hhistory hlastFull hstart hahead hconfirmed htarget)
    (.intro (.intro (.intro hserver hshown) hnow hpast) hghosts)

omit [Seconds τ] [Clock τ φ] [Host H τ] in
theorem wantsMore_rotated (hs : s.Rotated n s') : wantsMore s' = wantsMore s := by
  obtain ⟨-, -, -, hahead, ⟨-⟩, -⟩ := hs
  unfold wantsMore
  rw [hahead.isEmpty_eq]
  rfl

theorem again_alike (hs : s.Rotated n s') (hc : c.Rotated n c') :
    Alike n (Aligned n) (again (s, c)) (again (s', c')) :=
  hc.world.exitScope.bind fun _ _ hworld => step_alike hs (.intro hworld.1 hc.ghosts)

omit [Seconds τ] [Clock τ φ] [Host H τ] in
theorem checkReached_alike {time time' : TimeRecord τ φ} (ht : time.Rotated n time')
    {confirmed confirmed' : Confirmed φ} (hc : confirmed.Rotated n confirmed') :
    Alike n Eq (checkReached time confirmed) (checkReached time' confirmed') := by
  obtain ⟨hserver, -⟩ := ht
  obtain ⟨htick⟩ := hc
  unfold checkReached
  dsimp only
  rw [hserver.beq_eq htick]
  exact .ite Iff.rfl (fun _ => .ok rfl) fun _ => .error (.burstMissed hserver htick _ _)

omit [Seconds τ] [Clock τ φ] in
theorem leave_alike (hs : s.Rotated n s') (hc : c.Rotated n c') :
    Alike n (Aligned n) (leave (s, c)) (leave (s', c')) := by
  refine hc.world.exitScope.bind fun w w' hw => ?_
  obtain ⟨hhistory, hlastFull, hstart, hahead, hconfirmed, htarget⟩ := hs
  refine (checkReached_alike hw.1.time hconfirmed).bind fun _ _ _ => ?_
  refine (Alike.same _).bind fun _ _ _ => ?_
  have hghosts := hc.ghosts
  obtain ⟨htick⟩ := hconfirmed
  obtain ⟨⟨⟨hserver, hshown⟩, hnow, hpast⟩, -⟩ := hw
  refine .ok ⟨.intro hhistory hlastFull hstart .nil (.intro htick) htarget,
    .intro (.intro (.intro htick hshown) hnow ?_) hghosts.enableAll⟩
  exact .cons (.exited _ _) hpast

/-- The hooks of prediction keep a rotation of the driver and the scene. -/
theorem keep_hooks : (hooks : Hooks (Prediction τ φ × Scene τ φ H)).Keep n (Aligned n) hooks where
  wantsEntry _ _ h := wantsEntry_alike h.1 h.2
  enter _ _ h := enter_alike h.1 h.2
  wantsMore _ _ h := .ok ⟨wantsMore_rotated h.1, h⟩
  again _ _ h := again_alike h.1 h.2
  leave _ _ h := leave_alike h.1 h.2

/-- Prediction runs alike in a rotated scene. -/
theorem run_alike {body body' : Scene τ φ H → Except Fault (Scene τ φ H)}
    (hbody : ∀ c c', c.Rotated n c' → Alike n (Scene.Rotated n) (body c) (body' c'))
    {b b' : Bracket (Prediction τ φ)} (hb : Related (Rotated n) b b') (hc : c.Rotated n c') :
    Alike n (Turn.Related (Rotated n) (Scene.Rotated n)) (run b c body) (run b' c' body') :=
  runIn_alike keep_hooks hbody hb hc

end Legs

end Metronome.Prediction
