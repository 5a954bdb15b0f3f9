import Mathlib.Algebra.Order.Group.Int
import Mathlib.Data.Int.ModEq
import Mathlib.Order.RelIso.Basic
import Metronome.Proofs.Circle

/-!
# Steps and neighbourhoods

The arithmetic of ticks is that of the indices modulo the circle: a step forward is undone by the
same step back, its length can be read off the distance modulo the circle, and the distance between
two ticks, as a word, is a step from one to the other (`shift_distance`).

Only part of the circle is ordered. In the neighbourhood of a tick, less than a quarter of the
circle to either side of it, the distance from that tick embeds the ticks into the integers
(`position`): there distances add up, and being newer is a strict total order. `steps_faithfully`
puts both together.
-/

namespace Metronome.Tick

/-! ## Steps -/

/-- A number and its word differ by whole turns of a word. -/
theorem exists_toNat_ofInt (d : Int) :
    ∃ k : Int, ((UInt32.ofInt d).toNat : Int) = d + 4294967296 * k := by
  refine ⟨-(d / 4294967296), ?_⟩
  have hmod : (UInt32.ofInt d).toNat = (d % 4294967296).toNat % 4294967296 := UInt32.toNat_ofNat'
  omega

/-- The distance from one tick to another is a step that leads there. -/
theorem shift_distance {t u : Tick} (ht : t.OnCircle) (hu : u.OnCircle) :
    t.shift (UInt32.ofInt (u.distance t)) = u := by
  have hv := ht.shift (UInt32.ofInt (u.distance t))
  apply eq_of_distance_eq_zero hv hu
  obtain ⟨k, hk⟩ := exists_distance_shift ht ht (UInt32.ofInt (u.distance t))
  obtain ⟨k', hk'⟩ := exists_toNat_ofInt (u.distance t)
  obtain ⟨k'', hk''⟩ := distance_triangle hv hu ht
  -- the step is too long or too short by whole turns, and two ticks are less than one turn apart
  have hself := distance_self t
  have := le_distance (t.shift (UInt32.ofInt (u.distance t))) u
  have := distance_lt (t.shift (UInt32.ofInt (u.distance t))) u
  omega

/-- The length of a step forward, as far as the circle tells. -/
theorem shift_distance_modEq {t : Tick} (ht : t.OnCircle) (n : UInt32) :
    (t.shift n).distance t ≡ n.toNat [ZMOD 2147483648] := by
  obtain ⟨k, hk⟩ := exists_distance_shift ht ht n
  rw [hk, distance_self, Int.zero_add]
  exact Int.modEq_add_fac_self

theorem place_shift {t : Tick} (ht : t.OnCircle) (n : UInt32) :
    (t.shift n).place = (t.place + n.toNat) % 2147483648 := by
  have hodd := onCircle_iff.mp ht
  rw [place_eq, place_eq, raw_toNat_shift]
  omega

/-! ## Neighbourhoods -/

/-- The ticks less than a quarter of the circle away from one. -/
def neighbourhood (c : Tick) : Set Tick := {t | t.OnCircle ∧ t.Near c}

section Neighbourhood

variable {c t u v : Tick}

/-- In a neighbourhood ticks are as far apart as their distances from its centre tell. -/
theorem distance_of_mem (hc : c.OnCircle) (ht : t ∈ c.neighbourhood) (hu : u ∈ c.neighbourhood) :
    t.distance u = t.distance c - u.distance c := by
  obtain ⟨htc, htn⟩ := ht
  obtain ⟨huc, hun⟩ := hu
  unfold Near at htn hun
  have hct := distance_comm htc hc (by omega)
  have hcu := distance_comm huc hc (by omega)
  rw [distance_eq_sub hc htc huc (by omega) (by omega)]
  omega

theorem distance_add_of_mem (hc : c.OnCircle) (ht : t ∈ c.neighbourhood)
    (hu : u ∈ c.neighbourhood) (hv : v ∈ c.neighbourhood) :
    t.distance v = t.distance u + u.distance v := by
  rw [distance_of_mem hc ht hv, distance_of_mem hc ht hu, distance_of_mem hc hu hv]
  omega

theorem isNewerThan_iff (ht : t.OnCircle) (hu : u.OnCircle) :
    t.isNewerThan u = .ok true ↔ 0 < t.distance u := by
  rw [isNewerThan_eq_ok ht.isValid hu.isValid, Except.ok.injEq, decide_eq_true_eq, gt_iff_lt]

/-- In a neighbourhood the newer of two ticks is the one further ahead of the centre. -/
def position (hc : c.OnCircle) (S : Set Tick) (hS : S ⊆ c.neighbourhood) :
    (fun t u : S => t.1.isNewerThan u.1 = .ok true) ↪r ((· > ·) : Int → Int → Prop) where
  toFun t := t.1.distance c
  inj' t u h := Subtype.ext <| eq_of_distance_eq_zero (hS t.2).1 (hS u.2).1 <| by
    rw [distance_of_mem hc (hS t.2) (hS u.2)]
    exact Int.sub_eq_zero.mpr h
  map_rel_iff' {t u} := by
    rw [isNewerThan_iff (hS t.2).1 (hS u.2).1, distance_of_mem hc (hS t.2) (hS u.2)]
    exact Int.sub_pos.symm

end Neighbourhood

/-- The arithmetic of ticks is faithful. A step from a tick, of any length and in either direction,
leads to a tick, and the same step back undoes it; it adds its length to the index, modulo the
circle, and to the distance, which is the representative nearest to zero. The distance between two
ticks, as a word, is a step from one to the other, and it is zero only for the same tick. In a set
of ticks less than a quarter of the circle from a common one distances add up, and being newer is a
strict total order. -/
theorem steps_faithfully (i j n : UInt32) :
    (∃ v, (ofIndex i).advance n = .ok v ∧ v.OnCircle ∧ v.raw.toNat % 2 = 1 ∧ v.isValid = true ∧
      v.rewind n = .ok (ofIndex i) ∧
      (∃ d, v.since (ofIndex i) = .ok d ∧ -1073741824 ≤ d ∧ d < 1073741824 ∧
        d ≡ n.toNat [ZMOD 2147483648]) ∧
      ∃ k l, (ofIndex i).index = .ok k ∧ v.index = .ok l ∧
        l.toNat = (k.toNat + n.toNat) % 2147483648) ∧
    (∃ v, (ofIndex i).rewind n = .ok v ∧ v.OnCircle ∧ v.raw.toNat % 2 = 1 ∧ v.isValid = true) ∧
    (∃ d, (ofIndex j).since (ofIndex i) = .ok d ∧
      (ofIndex i).advance (UInt32.ofInt d) = .ok (ofIndex j) ∧ (d = 0 → ofIndex j = ofIndex i)) ∧
    ∀ S ⊆ (ofIndex i).neighbourhood,
      (∀ t ∈ S, ∀ u ∈ S, ∀ v ∈ S, ∃ d e, t.since u = .ok d ∧ u.since v = .ok e ∧
        t.since v = .ok (d + e)) ∧
      IsStrictTotalOrder S fun t u => t.1.isNewerThan u.1 = .ok true := by
  have ht := OnCircle.ofIndex i
  have hu := OnCircle.ofIndex j
  generalize ofIndex i = t at *
  generalize ofIndex j = u at *
  refine ⟨?_, ?_, ?_, fun S hS => ⟨fun a ha b hb e he => ?_, ?_⟩⟩
  · have hv := ht.shift n
    obtain ⟨k, hk, hkp⟩ := ht.exists_index
    obtain ⟨l, hl, hlp⟩ := hv.exists_index
    refine ⟨t.shift n, advance_eq_ok ht.isValid n, hv, onCircle_iff.mp hv, hv.isValid, ?_,
      ⟨_, since_eq_ok hv.isValid ht.isValid, le_distance _ _, distance_lt _ _,
        shift_distance_modEq ht n⟩, k, l, hk, hl, ?_⟩
    · rw [rewind_eq_ok hv.isValid, shiftBack_shift]
    · rw [hlp, hkp, place_shift ht]
  · have hv := ht.shiftBack n
    exact ⟨t.shiftBack n, rewind_eq_ok ht.isValid n, hv, onCircle_iff.mp hv, hv.isValid⟩
  · refine ⟨u.distance t, since_eq_ok hu.isValid ht.isValid, ?_, eq_of_distance_eq_zero hu ht⟩
    rw [advance_eq_ok ht.isValid, shift_distance ht hu]
  · have hav := (hS ha).1.isValid
    have hbv := (hS hb).1.isValid
    have hev := (hS he).1.isValid
    refine ⟨a.distance b, b.distance e, since_eq_ok hav hbv, since_eq_ok hbv hev, ?_⟩
    rw [since_eq_ok hav hev, distance_add_of_mem ht (hS ha) (hS hb) (hS he)]
  · exact (position ht S hS).isStrictTotalOrder

/-- Around the last tick before the first: three steps lead across, and the ticks on both sides are
ordered. -/
theorem steps_faithfully_wrap :
    (ofIndex 2147483647).advance 3 = .ok (ofIndex 2) ∧
    (ofIndex 2).since (ofIndex 2147483647) = .ok 3 ∧
    IsStrictTotalOrder ({ofIndex 2147483646, ofIndex 2} : Set Tick)
      fun t u => t.1.isNewerThan u.1 = .ok true := by
  have hS : ({ofIndex 2147483646, ofIndex 2} : Set Tick) ⊆ (ofIndex 2147483647).neighbourhood := by
    rintro t (rfl | rfl)
    · exact ⟨.ofIndex _, by decide⟩
    · exact ⟨.ofIndex _, by decide⟩
  obtain ⟨-, -, ⟨d, hd, hstep, -⟩, hset⟩ := steps_faithfully 2147483647 2 3
  have hthree : (ofIndex 2).since (ofIndex 2147483647) = .ok 3 := by decide
  rw [hthree] at hd
  cases hd
  exact ⟨hstep, hthree, (hset _ hS).2⟩

end Metronome.Tick
