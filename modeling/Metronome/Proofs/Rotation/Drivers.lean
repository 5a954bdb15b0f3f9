import Metronome.Presentation
import Metronome.Proofs.Rotation.World
import Metronome.Server

/-!
# Drivers in rotated worlds

The server holds no tick of its own, and counts on from the tick of the time record. From a valid
one it runs alike in a rotated world (`Server.run_alike`); from none it would start at tick zero,
which no rotation keeps. The presentation measures from the confirmed tick of the frame before, by
distances only (`Presentation.run_alike`).
-/

namespace Metronome

open Metronome.Bracket

variable {n : UInt32} {τ φ H : Type}

/-! ## The server -/

/-- Rotated worlds that are at some tick. -/
structure World.RotatedFrom (n : UInt32) (w w' : World τ φ H) : Prop where
  rotated : w.Rotated n w'
  isValid : w.time.serverTick.isValid = true

namespace Server

theorem rotated_nextTick {t t' : Tick} (h : t.Rotated n t') (hv : t.isValid = true)
    (length : UInt32) :
    (nextTick t length).Rotated n (nextTick t' length) ∧ (nextTick t length).isValid = true := by
  obtain ⟨hc, rfl⟩ := h.moved hv
  rw [nextTick, nextTick, if_pos hv, if_pos (hc.shift n).isValid, Tick.shift_shift_comm]
  exact ⟨.onCircle (hc.shift length), (hc.shift length).isValid⟩

variable [Seconds τ] {w w' : World τ φ H}

theorem wantsEntry_alike (h : w.RotatedFrom n w') (s : Server τ) :
    Alike n (Answers fun x x' => x'.1 = x.1 ∧ x.2.RotatedFrom n x'.2) (wantsEntry (s, w))
      (wantsEntry (s, w')) := by
  obtain ⟨hrotated, hv⟩ := h
  have hentered := hrotated.record (.entered .server hrotated.time.serverTick)
  have hskipped := hrotated.record (.skipped .server .noSteps)
  obtain ⟨-, -, -⟩ := hrotated
  refine .ite Iff.rfl (fun _ => ?_) fun _ => ?_
  · exact .ok ⟨rfl, rfl, hskipped, hv⟩
  · exact .ok ⟨rfl, rfl, hentered, hv⟩

variable [Fraction φ] [Host H τ]

theorem step_alike (h : w.RotatedFrom n w') (s : Server τ) :
    Alike n (fun x x' => x'.1 = x.1 ∧ x.2.RotatedFrom n x'.2) (step (s, w)) (step (s, w')) := by
  obtain ⟨⟨⟨hserver, hshown⟩, hconfirmed, hpast⟩, hv⟩ := h
  refine .ite_bind (.same _) (.same _) ?_
  rintro length _ rfl
  refine (Alike.same _).bind ?_
  rintro remaining _ rfl
  refine (Alike.same _).bind ?_
  rintro invocations _ rfl
  obtain ⟨hnext, hvalid⟩ := rotated_nextTick hserver hv length
  refine .ok ⟨rfl, .intro (.intro hnext hshown) hconfirmed ?_, hvalid⟩
  exact .cons (.invoked (.intro hnext)) hpast

/-- The hooks of the server keep a rotation of the world. -/
theorem keep_hooks : (hooks : Hooks (Server τ × World τ φ H)).Keep n
    (fun x x' => x'.1 = x.1 ∧ x.2.RotatedFrom n x'.2) hooks where
  wantsEntry := by
    rintro ⟨s, w⟩ ⟨_, w'⟩ ⟨rfl, hw⟩
    exact wantsEntry_alike hw _
  enter := by
    rintro ⟨s, w⟩ ⟨_, w'⟩ ⟨rfl, hw⟩
    exact step_alike hw _
  wantsMore := by
    rintro ⟨s, w⟩ ⟨_, w'⟩ ⟨rfl, hw⟩
    exact .ok ⟨rfl, rfl, hw⟩
  again := by
    rintro ⟨s, w⟩ ⟨_, w'⟩ ⟨rfl, hw⟩
    refine hw.rotated.exitScope.bind fun w₁ w₁' h₁ => step_alike ⟨h₁.1, ?_⟩ _
    rw [h₁.2]
    exact hw.isValid
  leave := by
    rintro ⟨s, w⟩ ⟨_, w'⟩ ⟨rfl, hw⟩
    refine hw.rotated.exitScope.bind fun w₁ w₁' h₁ => ?_
    obtain ⟨⟨⟨hserver, hshown⟩, hconfirmed, hpast⟩, htime⟩ := h₁
    refine .ok ⟨rfl, .intro (.intro hserver hshown) hconfirmed (.cons (.exited _ _) hpast), ?_⟩
    show w₁.time.serverTick.isValid = true
    rw [htime]
    exact hw.isValid

/-- From a valid tick the server runs alike in a rotated world. -/
theorem run_alike {body body' : World τ φ H → Except Fault (World τ φ H)}
    (hbody : ∀ w w', w.RotatedFrom n w' → Alike n (World.RotatedFrom n) (body w) (body' w'))
    (hw : w.RotatedFrom n w') (b : Bracket (Server τ)) :
    Alike n (Turn.Related (fun s s' => s' = s) (World.RotatedFrom n)) (run b w body)
      (run b w' body') :=
  runIn_alike (R := fun s s' => s' = s) keep_hooks hbody ⟨rfl, rfl⟩ hw

end Server

/-! ## Presentation -/

/-- The second frame is the first one, with its tick rotated. -/
inductive Presented.Rotated (n : UInt32) (p : Presented τ φ) : Presented τ φ → Prop
  /-- Everything else is kept. -/
  | intro {tick : Tick} (htick : p.tick.Rotated n tick) : Rotated n p { p with tick }

/-- The second driver is the first one, with the tick that it measured up to and the one that it is
to show rotated. -/
inductive Presentation.Rotated (n : UInt32) (s : Presentation τ φ) : Presentation τ φ → Prop
  /-- Everything else is kept. -/
  | intro {previous : Confirmed φ} {pending : Presented τ φ}
      (hprevious : s.previous.Rotated n previous) (hpending : s.pending.Rotated n pending) :
      Rotated n s { s with previous, pending }

namespace Presentation

variable {s s' : Presentation τ φ} {w w' : World τ φ H}

section Turns

variable [Host H τ]

theorem enter_alike (hs : s.Rotated n s') (hw : w.Rotated n w') :
    (enter (s, w)).1.Rotated n (enter (s', w')).1 ∧
      (enter (s, w)).2.Rotated n (enter (s', w')).2 := by
  obtain ⟨hprevious, ⟨htick⟩⟩ := hs
  obtain ⟨⟨hserver, hshown⟩, hconfirmed, hpast⟩ := hw
  refine ⟨.intro hprevious (.intro htick), .intro (.intro hserver hshown) hconfirmed ?_⟩
  exact .cons (.invoked (.intro htick)) hpast

theorem leave_alike (hs : s.Rotated n s') (hw : w.Rotated n w') :
    Alike n (fun x x' => x.1.Rotated n x'.1 ∧ x.2.Rotated n x'.2) (leave (s, w))
      (leave (s', w')) := by
  refine hw.exitScope.bind fun w₁ w₁' h₁ => ?_
  obtain ⟨hprevious, hpending⟩ := hs
  obtain ⟨⟨⟨hserver, hshown⟩, hconfirmed, hpast⟩, -⟩ := h₁
  exact .ok ⟨.intro hprevious hpending, .intro (.intro hserver hshown) hconfirmed hpast⟩

end Turns

variable [Seconds τ] [Fraction φ] [Clock τ φ]

theorem moved_alike {previous previous' now now' : Confirmed φ} (hp : previous.Rotated n previous')
    (hn : now.Rotated n now') (step : τ) :
    Alike n (Presented.Rotated n) (moved previous now step) (moved previous' now' step) := by
  obtain ⟨hp⟩ := hp
  obtain ⟨hn⟩ := hn
  refine (hn.since hp).bind ?_
  rintro since _ rfl
  refine (Alike.same _).bind ?_
  rintro batch _ rfl
  exact .ok (.intro hn)

theorem plan_alike {previous previous' : Confirmed φ} (hp : previous.Rotated n previous')
    (hw : w.Rotated n w') :
    Alike n (fun x x' => x.1.Rotated n x'.1 ∧ x.2.Rotated n x'.2) (plan previous w)
      (plan previous' w') := by
  obtain ⟨-, hconfirmed, -⟩ := hw
  unfold plan
  dsimp only
  rw [hconfirmed.isValid_eq, hp.isValid_eq]
  refine .ite Iff.rfl (fun _ => .ok ⟨.intro .invalid, Confirmed.rotated_invalid⟩) fun _ => ?_
  refine (hconfirmed.snap _).bind fun now now' hnow => ?_
  refine .ite Iff.rfl (fun _ => ?_) fun _ => ?_
  · exact (moved_alike hp hnow _).bind fun _ _ hmoved => .ok ⟨hmoved, hnow⟩
  · have hreal := hnow
    obtain ⟨hnow⟩ := hnow
    exact .ok ⟨.intro hnow, hreal⟩

theorem wantsEntry_alike (hs : s.Rotated n s') (hw : w.Rotated n w') :
    Alike n (Answers fun x x' => x.1.Rotated n x'.1 ∧ x.2.Rotated n x'.2) (wantsEntry (s, w))
      (wantsEntry (s', w')) := by
  obtain ⟨hprevious, hpending⟩ := hs
  refine (plan_alike hprevious hw).bind ?_
  rintro ⟨pending, now⟩ ⟨_, now'⟩ ⟨⟨htick⟩, hnow⟩
  refine .ite Iff.rfl (fun _ => .ok ⟨rfl, .intro hnow (.intro htick), hw⟩) fun _ => ?_
  have hskipped := hw.record (.skipped .presentation .nonPositiveDelta)
  refine .ok ⟨rfl, ?_, hskipped⟩
  dsimp only
  rw [htick.isValid_eq]
  split
  · exact .intro hprevious hpending
  · exact .intro hnow hpending

variable [Host H τ]

/-- The hooks of the presentation keep a rotation of the driver and the world. -/
theorem keep_hooks : (hooks : Hooks (Presentation τ φ × World τ φ H)).Keep n
    (fun x x' => x.1.Rotated n x'.1 ∧ x.2.Rotated n x'.2) hooks where
  wantsEntry _ _ h := wantsEntry_alike h.1 h.2
  enter _ _ h := .ok (enter_alike h.1 h.2)
  wantsMore _ _ h := .ok ⟨rfl, h⟩
  again _ _ h := .ok h
  leave _ _ h := leave_alike h.1 h.2

/-- The presentation runs alike in a rotated world. -/
theorem run_alike {body body' : World τ φ H → Except Fault (World τ φ H)}
    (hbody : ∀ w w', w.Rotated n w' → Alike n (World.Rotated n) (body w) (body' w'))
    {b b' : Bracket (Presentation τ φ)} (hb : Related (Rotated n) b b') (hw : w.Rotated n w') :
    Alike n (Turn.Related (Rotated n) (World.Rotated n)) (run b w body) (run b' w' body') :=
  runIn_alike keep_hooks hbody hb hw

end Presentation

end Metronome
