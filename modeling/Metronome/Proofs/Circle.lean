import Metronome.Tick

/-!
# The circle of ticks

The ticks that the constructors give are the odd words: `OnCircle`. They stand for the `2 ^ 31`
places of a circle, and `distance` is the signed number of steps between two of them, from
`- 2 ^ 30` up to but not including `2 ^ 30`.

Distances add up only modulo the circle (`distance_triangle`). Two ticks that both lie near a third
one are compared by their distances from it (`distance_eq_sub`), which is why ticks near a confirmed
one are ordered like integers.
-/

namespace Metronome.Tick

/-- A tick with a place on the circle: the tick of an index. -/
def OnCircle (t : Tick) : Prop :=
  ∃ index, t = ofIndex index

/-- What the constructors of ticks give: a tick on the circle, or none. -/
def Regular (t : Tick) : Prop :=
  t = invalid ∨ t.OnCircle

/-- Less than a quarter of the circle apart. Ticks this near a common one are
compared faithfully. -/
def Near (t u : Tick) : Prop :=
  (t.distance u).natAbs < 536870912

instance (t u : Tick) : Decidable (t.Near u) :=
  inferInstanceAs (Decidable (_ < _))

/-- The tick on the other side of the circle: as far ahead as it is behind. -/
def opposite (t : Tick) : Tick :=
  t.shift 1073741824

theorem ofIndex_toNat (i : UInt32) : (ofIndex i).raw.toNat = 2 * i.toNat % 4294967296 + 1 := by
  simp only [ofIndex, UInt32.toNat_add, UInt32.toNat_mul]
  have h2 : (2 : UInt32).toNat = 2 := rfl
  have h1 : (1 : UInt32).toNat = 1 := rfl
  rw [h2, h1]
  omega

theorem onCircle_iff {t : Tick} : t.OnCircle ↔ t.raw.toNat % 2 = 1 := by
  constructor
  · rintro ⟨i, rfl⟩
    rw [ofIndex_toNat]
    omega
  · intro h
    refine ⟨t.raw / 2, ?_⟩
    have hraw : t.raw = t.raw / 2 * 2 + 1 := by
      apply UInt32.toNat_inj.mp
      have h2 : (2 : UInt32).toNat = 2 := rfl
      have h1 : (1 : UInt32).toNat = 1 := rfl
      have hlt := t.raw.toNat_lt
      simp only [UInt32.toNat_add, UInt32.toNat_mul, UInt32.toNat_div, h2, h1]
      omega
    cases t
    exact congrArg mk hraw

instance (t : Tick) : Decidable t.OnCircle := decidable_of_iff _ onCircle_iff.symm

instance (t : Tick) : Decidable t.Regular := inferInstanceAs (Decidable (_ ∨ _))

theorem OnCircle.ofIndex (i : UInt32) : (ofIndex i).OnCircle :=
  ⟨i, rfl⟩

theorem OnCircle.isValid {t : Tick} (h : t.OnCircle) : t.isValid = true := by
  have hodd := onCircle_iff.mp h
  simp only [Tick.isValid, bne_iff_ne, ne_eq]
  intro h0
  simp [h0] at hodd

theorem Regular.onCircle {t : Tick} (h : t.Regular) (hv : t.isValid = true) : t.OnCircle := by
  rcases h with rfl | h
  · simp at hv
  · exact h

/-! ## Places -/

/-- The index of a tick; the invalid tick counts as the first one. -/
def place (t : Tick) : Nat :=
  match t.index with
  | .ok index => index.toNat
  | .error _ => 0

theorem place_eq (t : Tick) : t.place = t.raw.toNat / 2 := by
  unfold place index
  by_cases hv : t.isValid = true
  · rw [if_pos hv]
    exact UInt32.toNat_div t.raw 2
  · have hraw : t.raw = 0 := by simpa [isValid] using hv
    rw [if_neg hv, hraw]
    rfl

theorem place_lt (t : Tick) : t.place < 2147483648 := by
  have := t.raw.toNat_lt
  rw [place_eq]
  omega

theorem OnCircle.exists_index {t : Tick} (h : t.OnCircle) :
    ∃ i, t.index = .ok i ∧ i.toNat = t.place := by
  refine ⟨t.raw / 2, if_pos h.isValid, ?_⟩
  rw [place_eq]
  exact UInt32.toNat_div t.raw 2

/-! ## Distances -/

@[simp] theorem distance_self (t : Tick) : t.distance t = 0 := by
  simp [distance]

theorem distance_lt (t u : Tick) : t.distance u < 1073741824 := by
  have := Int.bmod_lt (x := (t.raw.toNat : Int) - u.raw.toNat) (m := 4294967296) (by decide)
  simp only [distance]
  omega

theorem le_distance (t u : Tick) : -1073741824 ≤ t.distance u := by
  have := Int.le_bmod (x := (t.raw.toNat : Int) - u.raw.toNat) (m := 4294967296) (by decide)
  simp only [distance]
  omega

/-- The words of two ticks on the circle are an even number apart. -/
theorem bmod_raw_sub {t u : Tick} (ht : t.OnCircle) (hu : u.OnCircle) :
    ((t.raw.toNat : Int) - u.raw.toNat).bmod 4294967296 = 2 * t.distance u := by
  have hto := onCircle_iff.mp ht
  have huo := onCircle_iff.mp hu
  have hdiv := Int.bmod_add_bdiv ((t.raw.toNat : Int) - u.raw.toNat) 4294967296
  simp only [distance]
  omega

/-- The words of two ticks on the circle differ by twice their distance, modulo
the size of a word. -/
theorem exists_raw_sub {t u : Tick} (ht : t.OnCircle) (hu : u.OnCircle) :
    ∃ k : Int, (t.raw.toNat : Int) - u.raw.toNat = 2 * t.distance u + 4294967296 * k := by
  have hdiv := Int.bmod_add_bdiv ((t.raw.toNat : Int) - u.raw.toNat) 4294967296
  refine ⟨((t.raw.toNat : Int) - u.raw.toNat).bdiv 4294967296, ?_⟩
  rw [← bmod_raw_sub ht hu]
  omega

/-- Distances add up, modulo the circle. -/
theorem distance_triangle {t u v : Tick} (ht : t.OnCircle) (hu : u.OnCircle) (hv : v.OnCircle) :
    ∃ k : Int, t.distance v = t.distance u + u.distance v + 2147483648 * k := by
  obtain ⟨k₁, h₁⟩ := exists_raw_sub ht hv
  obtain ⟨k₂, h₂⟩ := exists_raw_sub ht hu
  obtain ⟨k₃, h₃⟩ := exists_raw_sub hu hv
  exact ⟨k₂ + k₃ - k₁, by omega⟩

/-- Two ticks are compared by their distances from a third one, if those differ by less
than half the circle. -/
theorem distance_eq_sub {c t u : Tick} (hc : c.OnCircle) (ht : t.OnCircle) (hu : u.OnCircle)
    (hlo : -1073741824 ≤ c.distance u - c.distance t)
    (hhi : c.distance u - c.distance t < 1073741824) :
    t.distance u = c.distance u - c.distance t := by
  obtain ⟨k, h⟩ := distance_triangle hc ht hu
  have := distance_lt t u
  have := le_distance t u
  omega

theorem distance_comm {t u : Tick} (ht : t.OnCircle) (hu : u.OnCircle)
    (h : -1073741824 < t.distance u) : u.distance t = -t.distance u := by
  have := distance_lt t u
  have hself := distance_self t
  rw [distance_eq_sub ht hu ht (by omega) (by omega), hself, Int.zero_sub]

theorem eq_of_distance_eq_zero {t u : Tick} (ht : t.OnCircle) (hu : u.OnCircle)
    (h : t.distance u = 0) : t = u := by
  obtain ⟨k, hk⟩ := exists_raw_sub ht hu
  have hraw : t.raw = u.raw := by
    apply UInt32.toNat_inj.mp
    have := t.raw.toNat_lt
    have := u.raw.toNat_lt
    omega
  cases t
  cases u
  exact congrArg mk hraw

/-- A tick on the circle is known by its distance from any other. -/
theorem eq_of_distance_eq {c t u : Tick} (hc : c.OnCircle) (ht : t.OnCircle) (hu : u.OnCircle)
    (h : c.distance t = c.distance u) : t = u := by
  apply eq_of_distance_eq_zero ht hu
  rw [distance_eq_sub hc ht hu (by omega) (by omega), h, Int.sub_self]

/-- A word between two ticks of the circle is as far from all others as the older of the two. -/
theorem exists_onCircle_distance (t : Tick) :
    ∃ v : Tick, v.OnCircle ∧ ∀ u : Tick, u.OnCircle →
      t.distance u = v.distance u ∧
        (u.Near t → -536870912 < u.distance v ∧ u.distance v ≤ 536870912) := by
  by_cases hodd : t.raw.toNat % 2 = 1
  · refine ⟨t, onCircle_iff.mpr hodd, fun u _ => ⟨rfl, fun hnear => ?_⟩⟩
    unfold Near at hnear
    omega
  · obtain ⟨v, hv⟩ : ∃ v : Tick, v.raw.toNat = (4294967295 + t.raw.toNat) % 4294967296 :=
      ⟨⟨t.raw - 1⟩, UInt32.toNat_sub t.raw 1⟩
    have hlt := t.raw.toNat_lt
    refine ⟨v, onCircle_iff.mpr (by omega), fun u hu => ?_⟩
    have hu := onCircle_iff.mp hu
    have hult := u.raw.toNat_lt
    simp only [Near, distance, Int.bmod_def]
    omega

/-! ## Steps along the circle -/

@[simp] theorem shiftBack_shift (t : Tick) (n : UInt32) : (t.shift n).shiftBack n = t := by
  simp [shift, shiftBack]

@[simp] theorem shift_shiftBack (t : Tick) (n : UInt32) : (t.shiftBack n).shift n = t := by
  simp [shift, shiftBack]

theorem raw_toNat_shift (t : Tick) (n : UInt32) :
    (t.shift n).raw.toNat = (t.raw.toNat + n.toNat * 2) % 4294967296 := by
  have h2 : (2 : UInt32).toNat = 2 := rfl
  simp only [shift, UInt32.toNat_add, UInt32.toNat_mul, h2]
  omega

theorem OnCircle.shift {t : Tick} (h : t.OnCircle) (n : UInt32) : (t.shift n).OnCircle := by
  rw [onCircle_iff] at h ⊢
  rw [raw_toNat_shift]
  omega

theorem OnCircle.shiftBack {t : Tick} (h : t.OnCircle) (n : UInt32) : (t.shiftBack n).OnCircle := by
  have hraw := raw_toNat_shift (t.shiftBack n) n
  rw [shift_shiftBack] at hraw
  rw [onCircle_iff] at h ⊢
  omega

theorem OnCircle.opposite {t : Tick} (h : t.OnCircle) : t.opposite.OnCircle :=
  h.shift _

/-- A step of `n` ticks adds `n` to every distance, modulo the circle. -/
theorem exists_distance_shift {t u : Tick} (ht : t.OnCircle) (hu : u.OnCircle) (n : UInt32) :
    ∃ k : Int, (t.shift n).distance u = t.distance u + n.toNat + 2147483648 * k := by
  obtain ⟨k₁, h₁⟩ := exists_raw_sub (ht.shift n) hu
  obtain ⟨k₂, h₂⟩ := exists_raw_sub ht hu
  have hraw := raw_toNat_shift t n
  exact ⟨k₂ - k₁ - ((t.raw.toNat + n.toNat * 2) / 4294967296 : Nat), by omega⟩

theorem distance_shift_left {t u : Tick} (ht : t.OnCircle) (hu : u.OnCircle) {n : UInt32}
    (h : t.distance u + n.toNat < 1073741824) :
    (t.shift n).distance u = t.distance u + n.toNat := by
  obtain ⟨k, hk⟩ := exists_distance_shift ht hu n
  have := distance_lt (t.shift n) u
  have := le_distance (t.shift n) u
  have := le_distance t u
  omega

theorem distance_shift_right {t u : Tick} (ht : t.OnCircle) (hu : u.OnCircle) {n : UInt32}
    (h : -1073741824 ≤ t.distance u - n.toNat) :
    t.distance (u.shift n) = t.distance u - n.toNat := by
  obtain ⟨k, hk⟩ := exists_distance_shift hu hu n
  obtain ⟨k', hk'⟩ := distance_triangle ht (hu.shift n) hu
  have := distance_self u
  have := distance_lt t u
  have := distance_lt t (u.shift n)
  have := le_distance t (u.shift n)
  omega

theorem distance_shiftBack_right {t u : Tick} (ht : t.OnCircle) (hu : u.OnCircle) {n : UInt32}
    (h : t.distance u + n.toNat < 1073741824) :
    t.distance (u.shiftBack n) = t.distance u + n.toNat := by
  have hb := hu.shiftBack n
  obtain ⟨k, hk⟩ := exists_distance_shift hb hb n
  obtain ⟨k', hk'⟩ := distance_triangle ht hu hb
  rw [shift_shiftBack] at hk
  have := distance_self (u.shiftBack n)
  have := le_distance t u
  have := distance_lt t (u.shiftBack n)
  have := le_distance t (u.shiftBack n)
  omega

/-- The tick `n` steps ahead of another is reached from it in `n` steps. -/
theorem eq_shift_of_distance {t u : Tick} (ht : t.OnCircle) (hu : u.OnCircle) {n : UInt32}
    (h : t.distance u = n.toNat) : t = u.shift n := by
  have := distance_lt t u
  apply eq_of_distance_eq_zero ht (hu.shift n)
  rw [distance_shift_right ht hu (by omega), h, Int.sub_self]

theorem distance_opposite {t : Tick} (ht : t.OnCircle) : t.distance t.opposite = -1073741824 := by
  have hn : (1073741824 : UInt32).toNat = 1073741824 := rfl
  have hself := distance_self t
  have h := distance_shift_right (n := 1073741824) ht ht (by omega)
  unfold opposite
  omega

theorem opposite_distance {t : Tick} (ht : t.OnCircle) : t.opposite.distance t = -1073741824 := by
  have hopp := distance_opposite ht
  have hself := distance_self t
  obtain ⟨k, hk⟩ := distance_triangle ht ht.opposite ht
  have := distance_lt t.opposite t
  have := le_distance t.opposite t
  omega

theorem opposite_ne {t : Tick} (ht : t.OnCircle) : t.opposite ≠ t := by
  intro h
  have hopp := distance_opposite ht
  rw [h, distance_self] at hopp
  omega

theorem eq_opposite {t u : Tick} (ht : t.OnCircle) (hu : u.OnCircle)
    (h : t.distance u = -1073741824) : u = t.opposite := by
  apply eq_of_distance_eq ht hu ht.opposite
  rw [h, distance_opposite ht]

end Metronome.Tick
