import Mathlib.Algebra.Order.Floor.Ring
import Metronome.Proofs.Presentation

/-!
# Snapping to tick boundaries

The line of positions has a boundary at every whole number. Snapping moves a position to the
boundary that it is less than the band away from (`snapped`), although it is computed on ticks and
fractions, where the boundary between two ticks is the end of the one and the beginning of the other
(`exists_snap_eq`). On the line it is monotone, whatever the band (`monotone_snapped`): so it never
lets a confirmed tick that moved forward seem to move back (`snap_monotone`).
-/

namespace Metronome

open Tick

/-! ## Positions on a line -/

/-- The boundary that a position is less than `band` away from; otherwise the position. -/
def snapped (band x : ℚ) : ℚ :=
  if Int.fract x < band then ⌊x⌋ else if 1 - band < Int.fract x then ⌊x⌋ + 1 else x

section Settled

variable {band x : ℚ}

theorem floor_le_snapped (band x : ℚ) : ⌊x⌋ ≤ snapped band x := by
  unfold snapped
  split_ifs
  · exact le_rfl
  · exact (lt_add_one _).le
  · exact Int.floor_le x

theorem snapped_le_floor_add_one (band x : ℚ) : snapped band x ≤ ⌊x⌋ + 1 := by
  unfold snapped
  split_ifs
  · exact (lt_add_one _).le
  · exact le_rfl
  · exact (Int.lt_floor_add_one x).le

/-- A position that is moved at all is moved by less than the band. -/
theorem snapped_eq_or_abs_sub_lt (band x : ℚ) :
    snapped band x = x ∨ |snapped band x - x| < band := by
  have hfract := Int.fract_add_floor x
  have hnonneg := Int.fract_nonneg x
  have hlt := Int.fract_lt_one x
  unfold snapped
  split_ifs with hlow hhigh
  · exact .inr (abs_lt.mpr ⟨by linarith, by linarith⟩)
  · exact .inr (abs_lt.mpr ⟨by linarith, by linarith⟩)
  · exact .inl rfl

/-- Between two boundaries the order is kept, and no position is moved past a boundary. -/
theorem monotone_snapped (band : ℚ) : Monotone (snapped band) := by
  intro x y hxy
  rcases (Int.floor_mono hxy).lt_or_eq with hlt | heq
  · have hsucc : (⌊x⌋ : ℚ) + 1 ≤ ⌊y⌋ := by exact_mod_cast hlt
    calc snapped band x ≤ ⌊x⌋ + 1 := snapped_le_floor_add_one band x
      _ ≤ ⌊y⌋ := hsucc
      _ ≤ snapped band y := floor_le_snapped band y
  · have hx := Int.fract_add_floor x
    have hy := Int.fract_add_floor y
    have hnonneg := Int.fract_nonneg y
    have hlt := Int.fract_lt_one y
    rw [← heq] at hy
    have hfract : Int.fract x ≤ Int.fract y := by linarith
    unfold snapped
    rw [← heq]
    split_ifs <;> linarith

theorem snapped_intCast_add (n : ℤ) {f : ℚ} (hnonneg : 0 ≤ f) (hlt : f < 1) :
    snapped band (n + f) = if f < band then (n : ℚ) else if 1 - band < f then n + 1 else n + f := by
  have hfloor : ⌊f⌋ = 0 := Int.floor_eq_zero_iff.mpr ⟨hnonneg, hlt⟩
  unfold snapped
  rw [Int.fract_intCast_add, Int.fract_eq_self.mpr ⟨hnonneg, hlt⟩, Int.floor_intCast_add, hfloor,
    add_zero]

/-- A boundary stays where it is. -/
theorem snapped_intCast (band : ℚ) (n : ℤ) : snapped band n = n := by
  unfold snapped
  rw [Int.fract_intCast, Int.floor_intCast]
  split_ifs with hlow hhigh
  · rfl
  · linarith
  · rfl

end Settled

/-! ## Ticks and fractions -/

namespace Confirmed

variable {c : Confirmed ℚ} {origin : Tick}

/-- The fraction of a constructed tick is a part of it. -/
theorem Built.fraction_mem (h : c.Built) : 0 < c.fraction ∧ c.fraction ≤ 1 := by
  cases h with
  | whole => exact ⟨one_pos, le_rfl⟩
  | inProgress _ f =>
    simp only [Confirmed.inProgress]
    split_ifs with hf
    · exact ⟨hf.2.1, hf.2.2.le⟩
    · exact ⟨one_pos, le_rfl⟩

theorem eq_whole (h : c.fraction = 1) : c = whole c.tick :=
  congrArg (mk c.tick) h

/-- A completed tick stays what it is, whatever the band. -/
theorem snap_whole {t : Tick} (hv : t.isValid = true) (band : ℚ) :
    (whole t : Confirmed ℚ).snap band = .ok (whole t) := by
  have hv : (whole t : Confirmed ℚ).isValid = true := hv
  have hpart : (whole t : Confirmed ℚ).isPartial = false := decide_eq_false (lt_irrefl 1)
  unfold snap completed
  simp only [hv, hpart, Bool.not_true, Bool.false_eq_true, if_false, ok_bind, pure_eq_ok]
  split_ifs with hlow hhigh
  · rfl
  · -- a band that is not positive is not more than one
    exact absurd hhigh (by linarith [not_lt.mp hlow])
  · rfl

/-- A tick under way becomes the one before it, or is completed, or stays what it is. -/
theorem snap_of_lt_one (hc : c.tick.OnCircle) (h : c.fraction < 1) (band : ℚ) :
    c.snap band = .ok (if c.fraction < band then whole (c.tick.shiftBack 1)
      else if 1 - band < c.fraction then whole c.tick else c) := by
  have hv : c.isValid = true := hc.isValid
  have hpart : c.isPartial = true := decide_eq_true h
  have hnext : (c.tick.shiftBack 1).next = .ok c.tick := by
    rw [next, advance_eq_ok (hc.shiftBack 1).isValid, shift_shiftBack]
  unfold snap completed
  simp only [hv, hpart, Bool.not_true, Bool.false_eq_true, if_false, if_true, prev,
    rewind_eq_ok hv, ok_bind, pure_eq_ok, hnext]
  split_ifs <;> rfl

/-- What a constructed tick becomes is constructed. -/
theorem Built.snap {band : ℚ} {now : Confirmed ℚ} (h : c.Built) (hv : c.isValid = true)
    (hnow : c.snap band = .ok now) : now.Built := by
  have hcircle := h.onCircle hv
  rcases h.fraction_mem.2.eq_or_lt with hone | hlt
  · have hsnap : c.snap band = .ok c := eq_whole hone ▸ snap_whole hv band
    exact Except.ok.inj (hsnap.symm.trans hnow) ▸ h
  · obtain rfl := Except.ok.inj ((snap_of_lt_one hcircle hlt band).symm.trans hnow)
    split_ifs
    · exact .whole (.inr (hcircle.shiftBack 1))
    · exact .whole (.inr hcircle)
    · exact h

theorem position_whole (t origin : Tick) :
    (whole t : Confirmed ℚ).position origin = (t.distance origin : ℤ) :=
  sub_add_cancel _ _

/-- A tick under way is past the boundary that it begins at. -/
theorem position_eq_add {S : Set Tick} (hS : Cluster S) (hc : c.tick ∈ S)
    (horigin : Around S origin) :
    c.position origin = ((c.tick.shiftBack 1).distance origin : ℤ) + c.fraction := by
  have hone : (1 : UInt32).toNat = 1 := rfl
  have hself := distance_self c.tick
  have hback := distance_shiftBack_right (n := 1) (hS.onCircle _ hc) (hS.onCircle _ hc) (by omega)
  have hadd := hS.distance_add (.of_mem hc) (.of_mem_shiftBack hc) horigin
  rw [hback, hself, hone] at hadd
  rw [position, hadd]
  push_cast
  ring

/-- What a constructed tick becomes is its position snapped on the line. It is the tick itself or a
completed one, and stays what it is when it is snapped again. -/
theorem exists_snap_eq {S : Set Tick} (hS : Cluster S) (hc : c.tick ∈ S) (hb : c.Built)
    (band : ℚ) :
    ∃ now, c.snap band = .ok now ∧ now.snap band = .ok now ∧ (now = c ∨ now = whole now.tick) ∧
      Around S now.tick ∧ ∀ origin, Around S origin →
        now.position origin = snapped band (c.position origin) := by
  have hcircle := hS.onCircle _ hc
  obtain ⟨hpos, hle⟩ := hb.fraction_mem
  rcases hle.eq_or_lt with hone | hlt
  · have hsnap : c.snap band = .ok c := eq_whole hone ▸ snap_whole hcircle.isValid band
    refine ⟨c, hsnap, hsnap, .inl rfl, .of_mem hc, fun origin _ => ?_⟩
    rw [eq_whole hone, position_whole, snapped_intCast]
  have hsnap := snap_of_lt_one hcircle hlt band
  have hsnapped : ∀ origin, Around S origin → snapped band (c.position origin) = _ :=
    fun origin horigin => (congrArg (snapped band) (position_eq_add hS hc horigin)).trans
      (snapped_intCast_add _ hpos.le hlt)
  by_cases hlow : c.fraction < band
  · rw [if_pos hlow] at hsnap
    refine ⟨_, hsnap, snap_whole (hcircle.shiftBack 1).isValid band, .inr rfl,
      .of_mem_shiftBack hc, fun origin horigin => ?_⟩
    rw [hsnapped origin horigin, if_pos hlow, position_whole]
  rw [if_neg hlow] at hsnap
  by_cases hhigh : 1 - band < c.fraction
  · rw [if_pos hhigh] at hsnap
    refine ⟨_, hsnap, snap_whole hcircle.isValid band, .inr rfl, .of_mem hc,
      fun origin horigin => ?_⟩
    have hbegin := position_eq_add hS hc horigin
    rw [position] at hbegin
    rw [hsnapped origin horigin, if_neg hlow, if_pos hhigh, position_whole]
    linarith
  · rw [if_neg hhigh] at hsnap
    refine ⟨c, hsnap, hsnap, .inl rfl, .of_mem hc, fun origin horigin => ?_⟩
    rw [hsnapped origin horigin, if_neg hlow, if_neg hhigh, position_eq_add hS hc horigin]

/-- Snapping is monotone. Among ticks that lie close together, what a constructed tick becomes is
the tick itself or a completed one, and stays what it is when it is snapped again. Its position is
the one that it had, snapped on the line: it is less than the band away if it is anywhere else. If
one tick is not ahead of another, then it is not ahead after both are snapped, so the time that is
presented from the one to the other is not negative. -/
theorem snap_monotone {S : Set Tick} (hS : Cluster S) {a b : Confirmed ℚ} (ha : a.tick ∈ S)
    (hb : b.tick ∈ S) (habuilt : a.Built) (hbbuilt : b.Built) (band : ℚ) :
    ∃ a' b', a.snap band = .ok a' ∧ b.snap band = .ok b' ∧ (a' = a ∨ a' = whole a'.tick) ∧
      a'.snap band = .ok a' ∧ ∀ origin, Around S origin →
        a'.position origin = snapped band (a.position origin) ∧
        (a'.position origin = a.position origin ∨
          |a'.position origin - a.position origin| < band) ∧
        (b.position origin ≤ a.position origin → b'.position origin ≤ a'.position origin ∧
          ∀ step : ℚ, 0 ≤ step → 0 ≤ Presentation.way b' a' step) := by
  obtain ⟨a', hsnapa, hagain, hform, haround, hsnapped⟩ := exists_snap_eq hS ha habuilt band
  obtain ⟨b', hsnapb, -, -, haround', hsnapped'⟩ := exists_snap_eq hS hb hbbuilt band
  refine ⟨a', b', hsnapa, hsnapb, hform, hagain, fun origin horigin =>
    ⟨hsnapped origin horigin, ?_, fun hle => ?_⟩⟩
  · rw [hsnapped origin horigin]
    exact snapped_eq_or_abs_sub_lt band _
  · have hkept : b'.position origin ≤ a'.position origin := by
      rw [hsnapped origin horigin, hsnapped' origin horigin]
      exact monotone_snapped band hle
    refine ⟨hkept, fun step hstep => ?_⟩
    rw [Presentation.way_eq hS haround' haround horigin]
    exact mul_nonneg hstep (sub_nonneg.mpr hkept)

/-- At both ends of the tick after the wrap: its beginning becomes the last tick of the circle. -/
theorem snap_monotone_wrap :
    ∃ a' b' : Confirmed ℚ, (inProgress (ofIndex 0) (99 / 100)).snap (1 / 20) = .ok a' ∧
      (inProgress (ofIndex 0) (1 / 50)).snap (1 / 20) = .ok b' ∧
      a'.tick = ofIndex 0 ∧ b'.tick = ofIndex 2147483647 ∧
      b'.position (ofIndex 0) ≤ a'.position (ofIndex 0) ∧
      0 ≤ Presentation.way b' a' (1 / 60 : ℚ) := by
  have hS : Cluster {ofIndex 0} := by
    refine ⟨?_, ?_⟩
    · rintro t rfl
      exact .ofIndex 0
    · rintro t rfl u rfl
      decide
  have hbuilt (f : ℚ) : (inProgress (ofIndex 0) f).Built := .inProgress (.inr (.ofIndex 0)) f
  have htold : ((inProgress (ofIndex 0) (99 / 100 : ℚ)).snap (1 / 20)).toOption.map (·.tick) =
        some (ofIndex 0) ∧
      ((inProgress (ofIndex 0) (1 / 50 : ℚ)).snap (1 / 20)).toOption.map (·.tick) =
        some (ofIndex 2147483647) := by
    decide +kernel
  obtain ⟨a', b', ha, hb, -, -, horder⟩ :=
    snap_monotone hS (a := inProgress (ofIndex 0) (99 / 100))
      (b := inProgress (ofIndex 0) (1 / 50)) rfl rfl (hbuilt _) (hbuilt _) (1 / 20)
  rw [ha, hb] at htold
  have hahead : (inProgress (ofIndex 0) (1 / 50 : ℚ)).position (ofIndex 0) ≤
      (inProgress (ofIndex 0) (99 / 100 : ℚ)).position (ofIndex 0) := by decide +kernel
  obtain ⟨hle, hway⟩ := (horder (ofIndex 0) (.of_mem rfl)).2.2 hahead
  exact ⟨a', b', ha, hb, Option.some.inj htold.1, Option.some.inj htold.2, hle,
    hway _ (by norm_num)⟩

end Confirmed

end Metronome
