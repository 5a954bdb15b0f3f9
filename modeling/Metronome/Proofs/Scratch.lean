import Mathlib.Order.Basic
import Metronome.Proofs.Nesting

/-!
# Scratch memory

What an invocation leaves in its arena can be read until the invocation after the next one begins.
Scopes that follow one another, each left with the name that was current as it was entered, take the
two arenas in turn, so that the arena of one scope is not current in the next (`Idle.visited`), and
work in a scope is work in its own arena (`worksTo_workedAll`), which never hands out more than it
has (`Sized.workedAll`). `scratch_lives` puts the parts together for any scopes in a row, and adds
what a scope finds as it begins: nothing handed out, and zeros in all that it is given.
-/

namespace Metronome

namespace Arena

/-! ## Bytes -/

/-- Filling changes the bytes of its range and no others. -/
theorem getElem?_fill {bytes : Array UInt8} {start count : Nat} (h : start + count ≤ bytes.size)
    (value : UInt8) (i : Nat) :
    (fill bytes start count value)[i]? =
      if start ≤ i ∧ i < start + count then some value else bytes[i]? := by
  simp only [fill, Array.getElem?_append, Array.getElem?_extract, Array.getElem?_replicate,
    Array.size_append, Array.size_extract, Array.size_replicate]
  grind

theorem size_fill {bytes : Array UInt8} {start count : Nat} (h : start + count ≤ bytes.size)
    (value : UInt8) : (fill bytes start count value).size = bytes.size := by
  simp only [fill, Array.size_append, Array.size_extract, Array.size_replicate]
  omega

theorem getElem?_slice (a : Arena) (start length i : Nat) :
    (a.slice start length)[i]? = if i < length then a.bytes[start + i]? else none := by
  simp only [slice, Array.getElem?_extract]
  grind

/-- What an allocation does: the bytes after those that are handed out, and the same arena with
zeros in them. -/
theorem alloc_eq_some_iff {a b : Arena} {length start : Nat} :
    a.alloc length = some (start, b) ↔ a.used + length ≤ a.capacity ∧ start = a.used ∧
      b = { a with bytes := fill a.bytes a.used length 0, used := a.used + length } := by
  unfold alloc
  split_ifs with hfits
  · rw [Option.some.injEq, Prod.mk.injEq, eq_comm, @eq_comm _ _ b]
    exact ⟨fun h => ⟨hfits, h⟩, fun h => h.2⟩
  · exact ⟨nofun, fun h => absurd h.1 hfits⟩

/-- What is handed out is zero. -/
theorem slice_alloc {a b : Arena} {length start : Nat} (h : a.alloc length = some (start, b)) :
    b.slice start length = Array.replicate length 0 := by
  obtain ⟨hfits, rfl, rfl⟩ := alloc_eq_some_iff.mp h
  refine Array.ext_getElem? fun i => ?_
  rw [getElem?_slice, Array.getElem?_replicate, getElem?_fill hfits]
  grind

/-- What was handed out before is left alone. -/
theorem slice_alloc_of_le {a b : Arena} {length start : Nat}
    (h : a.alloc length = some (start, b)) {start' length' : Nat}
    (hle : start' + length' ≤ a.used) : b.slice start' length' = a.slice start' length' := by
  obtain ⟨hfits, rfl, rfl⟩ := alloc_eq_some_iff.mp h
  refine Array.ext_getElem? fun i => ?_
  rw [getElem?_slice, getElem?_slice, getElem?_fill hfits]
  grind

/-- The arena has `capacity` bytes, and hands out no more. -/
structure Sized (capacity : Nat) (a : Arena) : Prop where
  capacity_eq : a.capacity = capacity
  used_le : a.used ≤ capacity

section Sized

variable {a b : Arena} {capacity : Nat}

theorem sized_ofCapacity (capacity : Nat) : (ofCapacity capacity).Sized capacity :=
  ⟨Array.size_replicate, Nat.zero_le _⟩

theorem Sized.rewind (h : a.Sized capacity) : a.rewind.Sized capacity :=
  ⟨h.capacity_eq, Nat.zero_le _⟩

theorem Sized.alloc (h : a.Sized capacity) {length start : Nat}
    (halloc : a.alloc length = some (start, b)) : b.Sized capacity := by
  obtain ⟨hfits, rfl, rfl⟩ := alloc_eq_some_iff.mp halloc
  exact ⟨(size_fill hfits 0).trans h.capacity_eq, h.capacity_eq ▸ hfits⟩

theorem Sized.write (h : a.Sized capacity) {start length : Nat} (hle : start + length ≤ a.used)
    (value : UInt8) : (a.write start length value).Sized capacity := by
  have hfits : start + length ≤ a.bytes.size := hle.trans (h.used_le.trans h.capacity_eq.ge)
  exact ⟨(size_fill hfits value).trans h.capacity_eq, h.used_le⟩

end Sized

end Arena

namespace ArenaPair

theorem get_release (p : ArenaPair) (previous : ArenaId) (side : Side) :
    (p.release previous).get side = p.get side := by
  cases side <;> rfl

/-- An allocation is one from the current arena. -/
theorem alloc_eq_some {p q : ArenaPair} {side taken : Side} {length start : Nat}
    (hcurrent : p.currentSide = some side)
    (h : p.alloc length = some (some (taken, start, q))) :
    taken = side ∧ (p.get side).alloc length = some (start, q.get side) := by
  unfold alloc at h
  rw [hcurrent, Option.map_some, Option.some.injEq] at h
  obtain ⟨⟨_, a⟩, halloc, hq⟩ := Option.map_eq_some_iff.mp h
  cases hq
  exact ⟨rfl, by rw [get_set_self, halloc]⟩

/-! ## Work in a scope -/

/-- What is done in a scope with its arena. -/
inductive Work
  /-- Bytes are handed out, if there are enough. -/
  | alloc (length : Nat)
  /-- One value is written into such bytes. -/
  | write (start length : Nat) (value : UInt8)

/-- The pair after one piece of work. -/
def worked (p : ArenaPair) : Work → ArenaPair
  | .alloc length => p.allocated length
  | .write start length value => p.written start length value

/-- The pair after all the work of a scope. -/
def workedAll (p : ArenaPair) (works : List Work) : ArenaPair := works.foldl worked p

/-- The pair after a scope, which is left with the name that it replaced. -/
def visited (p : ArenaPair) (works : List Work) : ArenaPair :=
  (p.acquire.2.workedAll works).release p.acquire.1

/-- The pair after scopes one after the other. -/
def visitedAll (p : ArenaPair) (scopes : List (List Work)) : ArenaPair := scopes.foldl visited p

theorem worksTo_worked (p : ArenaPair) (work : Work) : p.WorksTo (p.worked work) := by
  cases work with
  | alloc length => exact p.worksTo_allocated length
  | write start length value => exact p.worksTo_written start length value

theorem worksTo_workedAll (p : ArenaPair) (works : List Work) : p.WorksTo (p.workedAll works) := by
  induction works generalizing p with
  | nil => exact .refl p
  | cons work works ih => exact (p.worksTo_worked work).trans (ih (p.worked work))

/-- Both arenas have `capacity` bytes, and hand out no more. -/
def Sized (capacity : Nat) (p : ArenaPair) : Prop := ∀ side, (p.get side).Sized capacity

section Sized

variable {p : ArenaPair} {capacity : Nat}

theorem sized_ofCapacity (capacity : Nat) : (ofCapacity capacity).Sized capacity := by
  rintro (_ | _) <;> exact Arena.sized_ofCapacity capacity

theorem Sized.set (h : p.Sized capacity) (side : Side) {a : Arena} (ha : a.Sized capacity) :
    (p.set side a).Sized capacity := by
  intro t
  rcases eq_or_ne t side with rfl | hne
  · exact (p.get_set_self t a).symm ▸ ha
  · exact (p.get_set_of_ne hne a).symm ▸ h t

theorem Sized.acquire (h : p.Sized capacity) : p.acquire.2.Sized capacity := by
  intro t
  rcases eq_or_ne t p.side.flip with rfl | hne
  · exact p.get_acquire_self.symm ▸ (h _).rewind
  · exact (p.get_acquire_of_ne hne).symm ▸ h t

theorem Sized.release (h : p.Sized capacity) (previous : ArenaId) :
    (p.release previous).Sized capacity :=
  fun side => p.get_release previous side ▸ h side

theorem Sized.worked (h : p.Sized capacity) (work : Work) : (p.worked work).Sized capacity := by
  cases work with
  | alloc length =>
    show (p.allocated length).Sized capacity
    unfold allocated ArenaPair.alloc
    cases p.currentSide with
    | none => exact h
    | some side =>
      simp only [Option.map_some]
      cases halloc : (p.get side).alloc length with
      | none => exact h
      | some allocation => exact h.set side ((h side).alloc halloc)
  | write start length value =>
    show (p.written start length value).Sized capacity
    unfold written
    cases p.currentSide with
    | none => exact h
    | some side =>
      dsimp only
      split_ifs with hle
      · exact h.set side ((h side).write hle value)
      · exact h

theorem Sized.workedAll (h : p.Sized capacity) (works : List Work) :
    (p.workedAll works).Sized capacity := by
  induction works generalizing p with
  | nil => exact h
  | cons work works ih => exact ih (h.worked work)

theorem Sized.visitedAll (h : p.Sized capacity) (scopes : List (List Work)) :
    (p.visitedAll scopes).Sized capacity := by
  induction scopes generalizing p with
  | nil => exact h
  | cons works scopes ih => exact ih ((h.acquire.workedAll works).release _)

/-- An allocation succeeds exactly if enough bytes are left. -/
theorem Sized.exists_alloc_iff (h : p.Sized capacity) {side : Side}
    (hcurrent : p.currentSide = some side) (length : Nat) :
    (∃ start q, p.alloc length = some (some (side, start, q))) ↔
      (p.get side).used + length ≤ capacity := by
  rw [← (h side).capacity_eq]
  constructor
  · rintro ⟨start, q, halloc⟩
    exact (Arena.alloc_eq_some_iff.mp (alloc_eq_some hcurrent halloc).2).1
  · intro hfits
    have halloc := Arena.alloc_eq_some_iff.mpr ⟨hfits, rfl, rfl⟩
    unfold alloc
    rw [hcurrent, Option.map_some, halloc]
    exact ⟨_, _, rfl⟩

end Sized

/-- The arena that is not current is not worked on. -/
theorem get_workedAll_of_ne {p : ArenaPair} {side side' : Side} (hcurrent : p.current = side.id)
    (hne : side' ≠ side) (works : List Work) : (p.workedAll works).get side' = p.get side' := by
  refine (p.worksTo_workedAll works).get_eq side' fun hid => hne ?_
  exact Side.id_injective (hid.symm.trans hcurrent)

/-! ## Scopes in a row -/

/-- No scope is open, and there were `count` so far. -/
structure Idle (count : Nat) (p : ArenaPair) : Prop where
  turn : p.side.flip = Side.flip^[count] .left
  current_eq : p.current = outside

theorem idle_ofCapacity (capacity : Nat) : (ofCapacity capacity).Idle 0 := ⟨rfl, rfl⟩

section Scopes

variable {p : ArenaPair} {count : Nat}

theorem Idle.currentSide (h : p.Idle count) : p.currentSide = none := by
  unfold ArenaPair.currentSide
  rw [h.current_eq]
  decide

/-- The arena that the next scope takes. -/
theorem Idle.acquired (h : p.Idle count) : p.acquire.2.current = (Side.flip^[count] .left).id :=
  congrArg Side.id h.turn

/-- It is the current one at each point of the scope. -/
theorem Idle.working (h : p.Idle count) (works : List Work) :
    (p.acquire.2.workedAll works).current = (Side.flip^[count] .left).id :=
  (worksTo_workedAll _ works).current_eq.trans h.acquired

theorem Idle.get_acquire (h : p.Idle count) :
    p.acquire.2.get (Side.flip^[count] .left) = (p.get (Side.flip^[count] .left)).rewind :=
  h.turn ▸ p.get_acquire_self

theorem Idle.visited (h : p.Idle count) (works : List Work) :
    (p.visited works).Idle (count + 1) where
  turn := by
    have hside : (p.visited works).side = p.side.flip := (worksTo_workedAll _ works).side_eq
    rw [hside, h.turn, Function.iterate_succ_apply']
  current_eq := h.current_eq

theorem Idle.visitedAll (h : p.Idle count) (scopes : List (List Work)) :
    (p.visitedAll scopes).Idle (count + scopes.length) := by
  induction scopes generalizing p count with
  | nil => exact h
  | cons works scopes ih =>
    have hrest := ih (h.visited works)
    rwa [Nat.add_assoc, Nat.add_comm 1] at hrest

/-- The arena of one scope stays as it is all through the next one. -/
theorem Idle.get_next (h : p.Idle (count + 1)) (works : List Work) :
    (p.acquire.2.workedAll works).get (Side.flip^[count] .left) =
      p.get (Side.flip^[count] .left) := by
  have hne : Side.flip^[count] .left ≠ Side.flip^[count + 1] .left := by
    rw [Function.iterate_succ_apply']
    exact (Side.flip_ne _).symm
  rw [get_workedAll_of_ne h.acquired hne, p.get_acquire_of_ne (h.turn ▸ hne)]

end Scopes

/-- Scratch memory lives until the invocation after the next. After any scopes in a row no arena is
current. The scope that follows takes the arena whose turn it is, with nothing handed out. At each
point of it an allocation succeeds if enough bytes are left in that arena; it comes from there, is
zero, and leaves what was handed out before as it is. What the scope leaves in its arena stays
there, byte for byte and with the same part handed out, when the scope is left, while the next one
works, and when that one is left; the scope after those two takes the arena again and empties it. -/
theorem scratch_lives (capacity : Nat) (earlier : List (List Work)) (works next : List Work) :
    let before := (ofCapacity capacity).visitedAll earlier
    let inside := before.acquire.2.workedAll works
    let after := before.visited works
    let side := Side.flip^[earlier.length] .left
    (before.current = outside ∧ before.currentSide = none ∧ before.acquire.1 = outside) ∧
      before.acquire.2.currentSide = some side ∧ (before.acquire.2.get side).used = 0 ∧
      (∀ length, (∃ start given, inside.alloc length = some (some (side, start, given))) ↔
        (inside.get side).used + length ≤ capacity) ∧
      (∀ (length start : Nat) (taken : Side) (given : ArenaPair),
        inside.alloc length = some (some (taken, start, given)) → taken = side ∧
          (given.get side).slice start length = Array.replicate length 0 ∧
          ∀ start' length' : Nat, start' + length' ≤ (inside.get side).used →
            (given.get side).slice start' length' = (inside.get side).slice start' length') ∧
      (after.get side = inside.get side ∧
        (after.acquire.2.workedAll next).get side = inside.get side ∧
        (after.visited next).get side = inside.get side) ∧
      (after.visited next).acquire.2.currentSide = some side ∧
      (after.visited next).acquire.2.get side = (inside.get side).rewind := by
  intro before inside after side
  have hbefore : before.Idle earlier.length := by
    have hidle := (idle_ofCapacity capacity).visitedAll earlier
    rwa [Nat.zero_add] at hidle
  have hafter : after.Idle (earlier.length + 1) := hbefore.visited works
  have hlast : (after.visited next).Idle (earlier.length + 1 + 1) := hafter.visited next
  have hturn : Side.flip^[earlier.length + 1 + 1] .left = side := by
    rw [Function.iterate_succ_apply', Function.iterate_succ_apply', Side.flip_involutive]
  have hleft : after.get side = inside.get side := get_release ..
  have hnext : (after.acquire.2.workedAll next).get side = inside.get side :=
    (hafter.get_next next).trans hleft
  have hkept : (after.visited next).get side = inside.get side := (get_release ..).trans hnext
  have hcurrent : inside.currentSide = some side := currentSide_of_current (hbefore.working works)
  have hsized : inside.Sized capacity :=
    ((sized_ofCapacity capacity).visitedAll earlier).acquire.workedAll works
  refine ⟨⟨hbefore.current_eq, hbefore.currentSide, hbefore.current_eq⟩,
    currentSide_of_current hbefore.acquired, congrArg Arena.used hbefore.get_acquire,
    hsized.exists_alloc_iff hcurrent, fun length start taken given halloc => ?_,
    ⟨hleft, hnext, hkept⟩, currentSide_of_current (hturn ▸ hlast.acquired), ?_⟩
  · obtain ⟨rfl, hgiven⟩ := alloc_eq_some hcurrent halloc
    exact ⟨rfl, Arena.slice_alloc hgiven, fun _ _ => Arena.slice_alloc_of_le hgiven⟩
  · have hrewound := hlast.get_acquire
    rwa [hturn, hkept] at hrewound

/-- Two small scopes, the second of which overwrites all of its arena. -/
theorem scratch_lives_eight :
    let before := (ofCapacity 8).visitedAll [[.alloc 8, .write 0 8 1]]
    let inside := before.acquire.2.workedAll [.alloc 4, .write 0 4 7]
    let after := before.visited [.alloc 4, .write 0 4 7]
    (∃ given, inside.alloc 2 = some (some (.right, 4, given)) ∧
      (given.get .right).slice 4 2 = #[0, 0] ∧ (given.get .right).slice 0 4 = #[7, 7, 7, 7]) ∧
      ((after.acquire.2.workedAll [.alloc 8, .write 0 8 9]).get .right).slice 0 4 =
        #[7, 7, 7, 7] := by
  intro before inside after
  obtain ⟨-, -, -, -, hgiven, ⟨-, hnext, -⟩, -⟩ := scratch_lives 8 [[.alloc 8, .write 0 8 1]]
    [.alloc 4, .write 0 4 7] [.alloc 8, .write 0 8 9]
  have htold : (inside.alloc 2).map (·.map fun given => (given.1, given.2.1)) =
      some (some (.right, 4)) := by
    decide +kernel
  obtain ⟨_, hcurrent, hfits⟩ := Option.map_eq_some_iff.mp htold
  obtain ⟨⟨_, _, given⟩, rfl, hplace⟩ := Option.map_eq_some_iff.mp hfits
  cases hplace
  obtain ⟨-, hzero, hkept⟩ := hgiven 2 4 .right given hcurrent
  exact ⟨⟨given, hcurrent, hzero, (hkept 0 4 (by decide +kernel)).trans (by decide +kernel)⟩,
    (congrArg (Arena.slice · 0 4) hnext).trans (by decide +kernel)⟩

end ArenaPair

end Metronome
