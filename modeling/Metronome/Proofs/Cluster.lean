import Metronome.Proofs.Circle
import Mathlib.Data.Set.Basic

/-!
# Ticks that lie close together

Ticks of the circle that lie pairwise less than a quarter of it apart are ordered like integers.
The order extends to the ticks right before them (`Around`), where the targets and the replay
points of a burst lie.
-/

namespace Metronome.Tick

variable {S : Set Tick} {t u v : Tick}

/-- Ticks of the circle, pairwise less than a quarter of it apart. -/
structure Cluster (S : Set Tick) : Prop where
  onCircle : ∀ t ∈ S, t.OnCircle
  near : ∀ t ∈ S, ∀ u ∈ S, t.Near u

/-- A tick of the set, or the one right before it. -/
def Around (S : Set Tick) (t : Tick) : Prop :=
  ∃ u ∈ S, t = u ∨ t = u.shiftBack 1

theorem Around.of_mem (h : t ∈ S) : Around S t :=
  ⟨t, h, Or.inl rfl⟩

theorem Around.of_mem_shiftBack (h : t ∈ S) : Around S (t.shiftBack 1) :=
  ⟨t, h, Or.inr rfl⟩

namespace Cluster

theorem onCircle_of_around (hS : Cluster S) (ht : Around S t) : t.OnCircle := by
  obtain ⟨a, ha, rfl | rfl⟩ := ht
  · exact hS.onCircle t ha
  · exact (hS.onCircle a ha).shiftBack 1

/-- Ticks around a cluster are at most a quarter of the circle apart. -/
theorem natAbs_distance_le (hS : Cluster S) (ht : Around S t) (hu : Around S u) :
    (t.distance u).natAbs ≤ 536870912 := by
  have h1 : (1 : UInt32).toNat = 1 := rfl
  obtain ⟨a, ha, hta⟩ := ht
  obtain ⟨b, hb, hub⟩ := hu
  have hac := hS.onCircle a ha
  have hbc := hS.onCircle b hb
  have hnear : (a.distance b).natAbs < 536870912 := hS.near a ha b hb
  have hab := distance_shiftBack_right (n := 1) hac hbc (by omega)
  have hback : ∀ v : Tick, v.OnCircle → -536870912 < a.distance v → a.distance v ≤ 536870912 →
      (a.shiftBack 1).distance v = a.distance v - 1 := by
    intro v hv hlo hhi
    obtain ⟨k, hk⟩ := exists_distance_shift (hac.shiftBack 1) hv 1
    rw [shift_shiftBack] at hk
    have := distance_lt (a.shiftBack 1) v
    have := le_distance (a.shiftBack 1) v
    omega
  rcases hta with rfl | rfl <;> rcases hub with rfl | rfl
  · omega
  · omega
  · have := hback u hbc (by omega) (by omega)
    omega
  · have := hback (b.shiftBack 1) (hbc.shiftBack 1) (by omega) (by omega)
    omega

/-- Distances around a cluster add up. -/
theorem distance_add (hS : Cluster S) (ht : Around S t) (hu : Around S u) (hv : Around S v) :
    t.distance v = t.distance u + u.distance v := by
  obtain ⟨k, hk⟩ := distance_triangle (hS.onCircle_of_around ht) (hS.onCircle_of_around hu)
    (hS.onCircle_of_around hv)
  have := hS.natAbs_distance_le ht hu
  have := hS.natAbs_distance_le hu hv
  have := hS.natAbs_distance_le ht hv
  omega

theorem distance_comm (hS : Cluster S) (ht : Around S t) (hu : Around S u) :
    u.distance t = -t.distance u := by
  have := hS.distance_add ht hu ht
  rw [distance_self] at this
  omega

end Cluster

end Metronome.Tick
