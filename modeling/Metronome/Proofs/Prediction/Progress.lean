import Metronome.Proofs.Prediction.Tiling

/-!
# Bursts that come to their end

A body can stop a burst: it may fault, close scopes that are not its own, or write to the time
record that the burst is checked against. With a quiet body (`Quiet`) nothing can, as long as no
replay point lies on the far side: the counters have room, every scope is closed again, and the
burst settles on the confirmed tick (`exists_burst`).
-/

namespace Metronome

open Tick

variable {τ φ H : Type}

/-- A body that returns, and leaves the time record and the number of open scopes as it found
them. -/
def Quiet (body : Scene τ φ H → Except Fault (Scene τ φ H)) : Prop :=
  ∀ c, ∃ c', body c = .ok c' ∧ c'.world.time = c.world.time ∧ c'.world.depth = c.world.depth

/-- The scope of an invocation is closed again after a quiet body. -/
theorem Quiet.exists_close [Host H τ] {body : Scene τ φ H → Except Fault (Scene τ φ H)}
    (hq : Quiet body) (c : Scene τ φ H) (i : Invocation τ φ) (ghosts : Ghosts) :
    ∃ c₂ w, body (c.opened i ghosts) = .ok c₂ ∧ c₂.world.exitScope = .ok w ∧
      w.time = (c.opened i ghosts).world.time := by
  obtain ⟨c₂, hbody, htime, hdepth⟩ := hq (c.opened i ghosts)
  have hopen : 0 < c₂.world.depth := by
    rw [hdepth]
    exact Nat.succ_pos _
  obtain ⟨w, hw⟩ := World.exists_exitScope hopen
  have hkept : w.time = c₂.world.time := by rw [World.exitScope_frame hw]
  exact ⟨c₂, w, hbody, hw, hkept.trans htime⟩

namespace Prediction

/-- The counters of a burst have room for so many invocations. -/
structure Room (n : Nat) (s : Prediction τ φ) (c : Scene τ φ H) : Prop where
  invocations : s.invocations.toNat + n < UInt32.size
  predictedIndex : c.world.time.predictedIndex.toNat + n < UInt32.size
  finals : s.finals.toNat + n < UInt32.size

theorem Room.fits {n : Nat} {s : Prediction τ φ} {c : Scene τ φ H} (h : Room (n + 1) s c)
    (i : Invocation τ φ) : Fits s c i where
  invocations := by
    have := h.invocations
    omega
  predictedIndex := by
    have := h.predictedIndex
    omega
  finals _ := by
    have := h.finals
    omega

theorem toNat_add_one {n : UInt32} (h : n.toNat + 1 < UInt32.size) :
    (n + 1).toNat = n.toNat + 1 := by
  have h1 : (1 : UInt32).toNat = 1 := rfl
  have hsize : UInt32.size = 4294967296 := rfl
  rw [UInt32.toNat_add]
  omega

/-- An invocation takes one place. -/
theorem Room.counted {n : Nat} {s : Prediction τ φ} {c : Scene τ φ H} (h : Room (n + 1) s c)
    (s₁ : Prediction τ φ) (hinv : s₁.invocations = s.invocations) (hfin : s₁.finals = s.finals)
    (i : Invocation τ φ) (c' : Scene τ φ H)
    (hindex : c'.world.time.predictedIndex = c.world.time.predictedIndex + 1) :
    Room n (s₁.counted i) c' where
  invocations := by
    have := h.invocations
    have := toNat_add_one (n := s.invocations) (by omega)
    simp only [Prediction.counted, hinv]
    omega
  predictedIndex := by
    have := h.predictedIndex
    have := toNat_add_one (n := c.world.time.predictedIndex) (by omega)
    rw [hindex]
    omega
  finals := by
    have := h.finals
    have := toNat_add_one (n := s.finals) (by omega)
    simp only [Prediction.counted, hfin]
    split <;> omega

variable [Seconds τ] [Fraction φ] [Clock τ φ] [Host H τ]

/-- A hop under a quiet body: the step, the body and the end of the scope all return. -/
theorem OnRoute.exists_leg {body : Scene τ φ H → Except Fault (Scene τ φ H)} (hq : Quiet body)
    {s : Prediction τ φ} {c : Scene τ φ H} {point : Tick} {near far : List Tick}
    (hon : OnRoute s (point :: near) far) {n : Nat} (hroom : Room (n + 1) s c) :
    ∃ c₁ c₂ w, step (s, c) =
        .ok (s.afterHop c.world.config c.world.time.flags point (near ++ far), c₁) ∧
      body c₁ = .ok c₂ ∧ c₂.world.exitScope = .ok w ∧
      Room n (s.afterHop c.world.config c.world.time.flags point (near ++ far))
        { c₂ with world := w } ∧
      w.time.serverTick = s.start.shift (s.nextLength c.world.config point) ∧
      w.time.serverFraction = 1 := by
  let i := s.hopInvocation c.world.config c.world.time.flags point
  obtain ⟨c₂, w, hbody, hw, htime⟩ := hq.exists_close c i (c.ghosts.joined s.start)
  have hindex : w.time.predictedIndex = c.world.time.predictedIndex + 1 := by
    rw [htime]
    rfl
  have hcounted := hroom.counted (s.hopped c.world.config point (near ++ far)) rfl rfl i
    { c₂ with world := w } hindex
  refine ⟨_, c₂, w, hon.step_eq_ok_iff.mpr ⟨hroom.fits i, rfl, rfl⟩, hbody, hw, hcounted, ?_, ?_⟩
  · rw [htime]
    rfl
  · rw [htime]
    rfl

/-- With a quiet body a driver on its route replays all the way to its target. -/
theorem OnRoute.exists_replay {body : Scene τ φ H → Except Fault (Scene τ φ H)} (hq : Quiet body)
    (n d : Nat) :
    ∀ {s : Prediction τ φ} {c : Scene τ φ H} {near far : List Tick}, OnRoute s near far →
      s.target.distance s.start ≤ d → Room (n + d) s c →
      ∃ whole is s₁ c₁, Replay (fun _ => True) far near s is s₁ ∧ Room n s₁ c₁ ∧
        whole.length = is.length ∧ (is = [] → c₁ = c) ∧
        (is ≠ [] → c₁.world.time.serverTick = s.target ∧ c₁.world.time.serverFraction = 1) ∧
        ∀ {rest : List (Scene τ φ H)} {r : Prediction τ φ × Scene τ φ H},
          Course body (s₁, c₁) rest r → Course body (s, c) (whole ++ rest) r := by
  induction d with
  | zero =>
    intro s c near far hon hd hroom
    cases near with
    | nil =>
      exact ⟨[], [], s, c, .arrived hon, hroom, rfl, fun _ => rfl, fun h => absurd rfl h,
        fun h => h⟩
    | cons point near =>
      obtain ⟨heq, hpoint, hpos⟩ := hon.point_distance
      omega
  | succ d ih =>
    intro s c near far hon hd hroom
    cases near with
    | nil =>
      refine ⟨[], [], s, c, .arrived hon, ?_, rfl, fun _ => rfl, fun h => absurd rfl h, fun h => h⟩
      obtain ⟨hn, hp, hf⟩ := hroom
      exact ⟨by omega, by omega, by omega⟩
    | cons point near =>
      have hstop := hon.target_distance_stop c.world.config
      have hlen := (hon.nextLength_bounds c.world.config).1
      obtain ⟨c₁, c₂, w, hstep, hbody, hw, hroom', htick, hfraction⟩ := hon.exists_leg hq hroom
      have hnear :
          s.target.distance (s.start.shift (s.nextLength c.world.config point)) ≤ d := by omega
      obtain ⟨whole, is, s₁, c', hreplay, hlast, hcount, hstay, hreach, hcourse⟩ :=
        ih (hon.hop c.world.config c.world.time.flags) hnear hroom'
      refine ⟨c₁ :: whole, _ :: is, s₁, c', .hop hon trivial hreplay, hlast,
        by simp [hcount], by simp, fun _ => ?_,
        fun hrest => .leg hon.wantsMore hstep hbody hw (hcourse hrest)⟩
      by_cases hnil : is = []
      · rw [hstay hnil, htick]
        subst hnil
        exact ⟨hreplay.tiles, hfraction⟩
      · exact hreach hnil

end Prediction

end Metronome
