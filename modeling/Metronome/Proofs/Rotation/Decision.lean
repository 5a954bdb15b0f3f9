import Metronome.Proofs.Prediction.Points
import Metronome.Proofs.Rotation.History
import Metronome.Proofs.Rotation.World

/-!
# The decision in a rotated scene

A frame is decided by distances between ticks and by their equality. In a rotated scene the oldest
point, the input that matters and the points that a replay may use are the rotated ones
(`replayPoints_alike`), so the driver declines for the same reason, or begins the rotated burst
(`wantsEntry_alike`).
-/

namespace Metronome

open Metronome.Bracket

variable {n : UInt32} {τ φ H : Type}

/-- The second driver is the first one, with all its ticks rotated. -/
inductive Prediction.Rotated (n : UInt32) (s : Prediction τ φ) : Prediction τ φ → Prop
  /-- Everything else is kept. -/
  | intro {history : History} {lastFull start target : Tick} {ahead : List Tick}
      {confirmed : Confirmed φ} (hhistory : s.history.Rotated n history)
      (hlastFull : s.lastFull.Rotated n lastFull) (hstart : s.start.Rotated n start)
      (hahead : Tick.AllRotated n s.ahead ahead) (hconfirmed : s.confirmed.Rotated n confirmed)
      (htarget : s.target.Rotated n target) :
      Rotated n s { s with history, lastFull, start, ahead, confirmed, target }

/-- The second scene is the first one, with a rotated world and rotated entities. -/
inductive Scene.Rotated (n : UInt32) (c : Scene τ φ H) : Scene τ φ H → Prop
  /-- There is nothing else. -/
  | intro {world : World τ φ H} {ghosts : Ghosts} (hworld : c.world.Rotated n world)
      (hghosts : c.ghosts.Rotated n ghosts) : Rotated n c ⟨world, ghosts⟩

namespace Scene.Rotated

variable {c c' : Scene τ φ H}

theorem world (h : c.Rotated n c') : c.world.Rotated n c'.world := by
  obtain ⟨hworld, -⟩ := h
  exact hworld

theorem ghosts (h : c.Rotated n c') : c.ghosts.Rotated n c'.ghosts := by
  obtain ⟨-, hghosts⟩ := h
  exact hghosts

end Scene.Rotated

namespace Prediction

open Tick

namespace Rotated

variable {s s' : Prediction τ φ}

theorem history (h : s.Rotated n s') : s.history.Rotated n s'.history := by
  obtain ⟨hhistory, -, -, -, -, -⟩ := h
  exact hhistory

theorem lastFull (h : s.Rotated n s') : s.lastFull.Rotated n s'.lastFull := by
  obtain ⟨-, hlastFull, -, -, -, -⟩ := h
  exact hlastFull

/-- What is kept from burst to burst, rotated anew. -/
theorem withKept (h : s.Rotated n s') {history history' : History} {lastFull lastFull' : Tick}
    (hhistory : history.Rotated n history') (hlastFull : lastFull.Rotated n lastFull') :
    Rotated n { s with history, lastFull }
      { s' with history := history', lastFull := lastFull' } := by
  obtain ⟨-, -, hstart, hahead, hconfirmed, htarget⟩ := h
  exact .intro hhistory hlastFull hstart hahead hconfirmed htarget

end Rotated

/-! ## Replay points -/

section Points

variable {confirmed confirmed' oldest oldest' target target' lastFull lastFull' first first' : Tick}

theorem targetOf_alike [Fraction φ] {c c' : Confirmed φ} (h : c.Rotated n c') :
    Alike n (Tick.Rotated n) (targetOf c) (targetOf c') := by
  unfold targetOf
  rw [h.isPartial_eq]
  refine .ite Iff.rfl (fun _ => ?_) fun _ => .ok h.tick
  exact h.tick.prev.mono fun _ _ h => h.rotated

theorem withTarget_alike {applied applied' : TickSet} (ha : applied.Rotated n applied')
    (hl : lastFull.Rotated n lastFull') (ht : target.Rotated n target') :
    Alike n (fun x x' => x.1.Rotated n x'.1 ∧ x.2.Rotated n x'.2)
      (withTarget applied lastFull target) (withTarget applied' lastFull' target') := by
  have hat := ha.insert ht
  unfold withTarget
  dsimp only
  rw [hl.isValid_eq]
  refine .ite Iff.rfl (fun _ => .ok ⟨hat, ht⟩) fun _ => ?_
  refine (ht.isNewerThan hl).bind ?_
  rintro newer _ rfl
  exact .ite Iff.rfl (fun _ => .ok ⟨hat.insert hl, hl⟩) fun _ => .ok ⟨hat, hl⟩

theorem firstInput_alike (hc : confirmed.Rotated n confirmed') (ho : oldest.Rotated n oldest')
    (history : UInt32) :
    Alike n (Moved n) (firstInput confirmed oldest history)
      (firstInput confirmed' oldest' history) := by
  refine (hc.since ho).bind ?_
  rintro age _ rfl
  refine .ite_bind (R := Tick.Rotated n) ?_ (.ok ho) fun _ _ hedge => hedge.next
  exact (hc.rewind history).mono fun _ _ h => h.rotated

theorem walkLength_shift (first last : Tick) :
    walkLength (first.shift n) (last.shift n) = walkLength first last := by
  have hfirst := raw_toNat_shift first n
  have hlast := raw_toNat_shift last n
  simp only [walkLength, Int.bmod_def]
  omega

theorem onWalk_shift (first : Tick) (length : Nat) (t : Tick) :
    onWalk (first.shift n) length (t.shift n) = onWalk first length t := by
  have hsub : (t.shift n).raw - (first.shift n).raw = t.raw - first.raw := by
    simp only [shift]
    grind
  rw [onWalk, hsub, onWalk]

theorem inputPoints_alike {inputs inputs' : TickSet} (hi : inputs.Rotated n inputs')
    (hf : first.Moved n first') (ht : target.Rotated n target') :
    Alike n (AllRotated n) (inputPoints inputs first target)
      (inputPoints inputs' first' target') := by
  obtain ⟨hf, rfl⟩ := hf
  unfold inputPoints
  dsimp only
  rw [onWalk_invalid hf, onWalk_invalid (hf.shift n), ht.isValid_eq]
  refine .ite Iff.rfl (fun _ => .fails _) fun hv => .ok ⟨?_, ?_⟩
  · intro t ht
    obtain ⟨u, hu, rfl⟩ := List.mem_map.mp ht
    exact (hi.onCircle u (List.mem_of_mem_filter hu)).shiftBack 1
  · have hvalid : target.isValid = true := by simpa using hv
    obtain ⟨-, rfl⟩ := ht.moved hvalid
    have hwalk : onWalk (first.shift n) (walkLength first target) ∘ (shift · n) =
        onWalk first (walkLength first target) :=
      funext fun t => onWalk_shift first _ t
    rw [walkLength_shift, hi.eq_map, List.filter_map, hwalk, List.map_map, List.map_map]
    exact List.map_congr_left fun t _ => shiftBack_shift_comm t n 1

theorem reachable_alike (hc : confirmed.Rotated n confirmed') (ht : target.Rotated n target')
    (horizon : Int) {t t' : Tick} (h : t.Rotated n t') :
    Alike n Eq (reachable confirmed target horizon t)
      (reachable confirmed' target' horizon t') := by
  refine (h.isNewerThan ht).bind ?_
  rintro newer _ rfl
  refine .ite Iff.rfl (fun _ => .ok rfl) fun _ => ?_
  refine .ite (h.eq_iff ht).symm (fun _ => .ok rfl) fun _ => ?_
  exact (hc.since h).bind fun _ _ heq => .ok (by rw [heq])

theorem replayPoints_alike (hc : confirmed.Rotated n confirmed') (ht : target.Rotated n target')
    (history : UInt32) {applied applied' inputs inputs' : TickSet} (ha : applied.Rotated n applied')
    (hi : inputs.Rotated n inputs') :
    Alike n (Option.Rel (AllRotated n)) (replayPoints confirmed target history applied inputs)
      (replayPoints confirmed' target' history applied' inputs') := by
  refine (ha.oldest hc).bind fun oldest oldest' hold => ?_
  cases hold with
  | none => exact .ok .none
  | some hold =>
    refine (firstInput_alike hc hold history).bind fun first first' hfirst => ?_
    refine (inputPoints_alike hi hfirst ht).bind fun points points' hpoints => ?_
    refine ((ha.insertAll hpoints).oldestFirst hc).bind fun all all' hall => ?_
    have hreachable := Alike.filterM hall.forall₂ fun _ _ h =>
      reachable_alike hc ht (horizon history) h.rotated
    exact hreachable.bind fun _ _ h => .ok (.some (.of_forall₂ h))

theorem expectedTicks_alike (ht : target.Rotated n target') (ho : oldest.Rotated n oldest')
    (isPartial : Bool) :
    Alike n Eq (expectedTicks target oldest isPartial)
      (expectedTicks target' oldest' isPartial) := by
  refine (ht.since ho).bind ?_
  rintro age _ rfl
  exact .same _

end Points

/-! ## The decision -/

/-- A driver and its scene, rotated together. -/
def Aligned (n : UInt32) (x x' : Prediction τ φ × Scene τ φ H) : Prop :=
  x.1.Rotated n x'.1 ∧ x.2.Rotated n x'.2

section Decision

variable {s s' : Prediction τ φ} {c c' : Scene τ φ H}

theorem skip_alike (hs : s.Rotated n s') (hc : c.Rotated n c') (reason : SkipReason) :
    Answers (Aligned n) (skip reason s c) (skip reason s' c') :=
  ⟨rfl, hs, .intro (hc.world.record (.skipped .prediction reason)) hc.ghosts⟩

variable [Seconds τ] [Fraction φ] [Clock τ φ]

theorem begin_alike (hs : s.Rotated n s') (hc : c.Rotated n c')
    {target target' oldest oldest' : Tick} (ht : target.Rotated n target')
    (ho : oldest.Rotated n oldest') (fresh : Bool) {ahead ahead' : List Tick}
    (ha : AllRotated n ahead ahead') :
    Alike n (Answers (Aligned n)) (begin s c target fresh oldest ahead)
      (begin s' c' target' fresh oldest' ahead') := by
  obtain ⟨⟨⟨hserver, hshown⟩, ⟨htick⟩, hpast⟩, hghosts⟩ := hc
  obtain ⟨hhistory, hlastFull, -, -, -, -⟩ := hs
  refine (expectedTicks_alike ht ho _).bind ?_
  rintro expected _ rfl
  refine .ok ⟨rfl, .intro hhistory hlastFull ho ha (.intro htick) ht,
    .intro (.intro (.intro hserver hshown) (.intro htick) ?_) hghosts.disableAll⟩
  exact .cons (.entered .prediction htick) hpast

theorem plan_alike (hs : s.Rotated n s') (hc : c.Rotated n c') :
    Alike n (Answers (Aligned n)) (plan s c) (plan s' c') := by
  have hconfirmed := hc.world.confirmed
  have hpartial := hconfirmed.isPartial_eq
  unfold plan
  dsimp only
  rw [hc.world.config_eq, hs.lastFull.isValid_eq, hpartial]
  refine (targetOf_alike hconfirmed).bind fun target target' ht => ?_
  refine (withTarget_alike hs.history.applied hs.lastFull ht).bind ?_
  rintro ⟨applied, lastFull⟩ ⟨applied', lastFull'⟩ ⟨ha, hl⟩
  refine (replayPoints_alike hconfirmed.tick ht _ ha hs.history.inputs).bind fun ps ps' hps => ?_
  cases hps with
  | none => exact .ok (skip_alike (hs.withKept History.rotated_empty hl) hc _)
  | @some points points' hpoints =>
    refine (hconfirmed.tick.since hl).bind ?_
    rintro age _ rfl
    have hs₁ := hs.withKept History.rotated_empty
      (related_ite (p := decide (age > horizon c.world.config.history) = true) ht hl)
    cases hpoints.forall₂ with
    | nil => exact .ite Iff.rfl (fun _ => .fails _) fun _ => .ok (skip_alike hs₁ hc _)
    | cons holdest hahead =>
      have hahead := AllRotated.of_forall₂ hahead
      dsimp only
      rw [hahead.isEmpty_eq]
      refine .ite Iff.rfl (fun _ => .ok (skip_alike hs₁ hc _)) fun _ => ?_
      exact begin_alike hs₁ hc ht holdest.rotated _ hahead

theorem wantsEntry_alike (hs : s.Rotated n s') (hc : c.Rotated n c') :
    Alike n (Answers (Aligned n)) (wantsEntry (s, c)) (wantsEntry (s', c')) := by
  unfold wantsEntry
  dsimp only
  rw [hc.world.config_eq, hc.world.confirmed.isValid_eq, hc.ghosts.isEmpty_eq]
  refine .ite Iff.rfl (fun _ => .ok (skip_alike hs hc _)) fun _ => ?_
  refine .ite Iff.rfl (fun _ => plan_alike hs hc) fun _ => ?_
  refine .ite Iff.rfl (fun _ => ?_) fun _ => ?_
  · exact .ok (skip_alike (hs.withKept History.rotated_empty .invalid) hc _)
  · exact plan_alike (hs.withKept History.rotated_empty hs.lastFull) hc

end Decision

end Prediction

end Metronome
