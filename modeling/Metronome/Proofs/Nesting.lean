import Mathlib.Algebra.Ring.Parity
import Mathlib.Data.List.Induction
import Mathlib.Tactic.SplitIfs
import Metronome.Arena

/-!
# The arena of an open scope

Two arenas take turns by the acquisitions: entering a scope takes the arena that was not taken last,
and leaving one makes the arena before it current again but does not give the turn back. So which
arena a scope is given depends on how many scopes were entered before it, not on which are open.

A scope that is open therefore keeps its arena while one scope is entered in it and left. The second
one that is entered in it takes the arena away and empties it, even if the first one is left by
then; so does the fourth, and so on. `Nest.arena_of_open_scope` says this for every scope that moves
in a row leave open, however deep, and with it when an arena is intact as control returns to it.

The moves in an open scope are those that run with no other scope below them: what they leave open
was opened in it, and they never leave the scope itself (`Nest.run_within`, `Nest.OpenScope`).
-/

namespace Metronome

variable {τ H : Type}

/-! ## Turns -/

namespace Side

theorem flip_involutive : Function.Involutive flip := fun side => by cases side <;> rfl

theorem flip_ne (side : Side) : side.flip ≠ side := by cases side <;> decide

theorem id_injective : Function.Injective id := fun s t h => by
  cases s <;> cases t <;> first | rfl | exact absurd h (by decide)

/-- The side after some turns: the same one after an even number of them. -/
theorem turns_of_even {n : Nat} (h : Even n) (side : Side) : flip^[n] side = side :=
  congrFun (flip_involutive.iterate_even h) side

theorem turns_of_odd {n : Nat} (h : Odd n) (side : Side) : flip^[n] side = side.flip :=
  congrFun (flip_involutive.iterate_odd h) side

end Side

namespace ArenaPair

theorem get_set_self (p : ArenaPair) (side : Side) (a : Arena) : (p.set side a).get side = a := by
  cases side <;> rfl

theorem get_set_of_ne (p : ArenaPair) {s t : Side} (h : t ≠ s) (a : Arena) :
    (p.set s a).get t = p.get t := by
  cases s <;> cases t <;> first | rfl | exact absurd rfl h

theorem side_set (p : ArenaPair) (side : Side) (a : Arena) : (p.set side a).side = p.side := by
  cases side <;> rfl

theorem current_set (p : ArenaPair) (side : Side) (a : Arena) :
    (p.set side a).current = p.current := by
  cases side <;> rfl

theorem get_acquire_self (p : ArenaPair) :
    p.acquire.2.get p.side.flip = (p.get p.side.flip).rewind := by
  obtain ⟨_, _, side, _⟩ := p
  cases side <;> rfl

theorem get_acquire_of_ne (p : ArenaPair) {side : Side} (h : side ≠ p.side.flip) :
    p.acquire.2.get side = p.get side := by
  obtain ⟨_, _, turn, _⟩ := p
  cases side <;> cases turn <;> first | rfl | exact absurd rfl h

theorem currentSide_eq_some {p : ArenaPair} {side : Side} (h : p.currentSide = some side) :
    p.current = side.id := by
  unfold currentSide at h
  split_ifs at h with hleft hright
  · exact Option.some.inj h ▸ hleft
  · exact Option.some.inj h ▸ hright

theorem currentSide_of_current {p : ArenaPair} {side : Side} (h : p.current = side.id) :
    p.currentSide = some side := by
  unfold currentSide
  rw [h]
  cases side <;> decide

/-! ## Work in the current arena -/

/-- The pair after an allocation from the current arena; a refused one changes nothing. -/
def allocated (p : ArenaPair) (length : Nat) : ArenaPair :=
  match p.alloc length with
  | some (some (_, _, q)) => q
  | _ => p

/-- The pair after one value was written into bytes that the current arena has handed out. -/
def written (p : ArenaPair) (start length : Nat) (value : UInt8) : ArenaPair :=
  match p.currentSide with
  | some side =>
    if start + length ≤ (p.get side).used then
      p.set side ((p.get side).write start length value)
    else p
  | none => p

/-- From `p` to `q` there is only work in the current arena, without taking bytes back. -/
structure WorksTo (p q : ArenaPair) : Prop where
  side_eq : q.side = p.side
  current_eq : q.current = p.current
  rewinds_eq : ∀ side, (q.get side).rewinds = (p.get side).rewinds
  get_eq : ∀ side : Side, p.current ≠ side.id → q.get side = p.get side

theorem WorksTo.refl (p : ArenaPair) : p.WorksTo p := ⟨rfl, rfl, fun _ => rfl, fun _ _ => rfl⟩

theorem WorksTo.trans {p q r : ArenaPair} (h : p.WorksTo q) (h' : q.WorksTo r) : p.WorksTo r where
  side_eq := h'.side_eq.trans h.side_eq
  current_eq := h'.current_eq.trans h.current_eq
  rewinds_eq side := (h'.rewinds_eq side).trans (h.rewinds_eq side)
  get_eq side hside := by
    have hside' : q.current ≠ side.id := h.current_eq ▸ hside
    exact (h'.get_eq side hside').trans (h.get_eq side hside)

/-- The current arena may change, as long as its bytes are not taken back. -/
theorem WorksTo.of_set {p : ArenaPair} {side : Side} (hcurrent : p.currentSide = some side)
    {a : Arena} (ha : a.rewinds = (p.get side).rewinds) : p.WorksTo (p.set side a) where
  side_eq := p.side_set side a
  current_eq := p.current_set side a
  rewinds_eq t := by
    rcases eq_or_ne t side with rfl | hne
    · rw [get_set_self, ha]
    · rw [get_set_of_ne p hne]
  get_eq t ht := by
    refine get_set_of_ne p ?_ a
    rintro rfl
    exact ht (currentSide_eq_some hcurrent)

theorem worksTo_allocated (p : ArenaPair) (length : Nat) : p.WorksTo (p.allocated length) := by
  unfold allocated alloc
  cases hside : p.currentSide with
  | none => exact .refl p
  | some side =>
    simp only [Option.map_some]
    cases halloc : (p.get side).alloc length with
    | none => exact .refl p
    | some allocation =>
      unfold Arena.alloc at halloc
      split_ifs at halloc
      cases halloc
      exact .of_set hside rfl

theorem worksTo_written (p : ArenaPair) (start length : Nat) (value : UInt8) :
    p.WorksTo (p.written start length value) := by
  unfold written
  cases hside : p.currentSide with
  | none => exact .refl p
  | some side =>
    dsimp only
    split_ifs
    · exact .of_set hside rfl
    · exact .refl p

end ArenaPair

/-! ## Hosts with a pair of arenas -/

/-- Hosts that keep a pair of arenas and leave the arenas of their scopes to it. -/
class PairHost (H : Type) (τ : outParam Type) [Host H τ] where
  /-- The pair. -/
  arenas : H → ArenaPair
  /-- The host with another pair. -/
  withArenas : H → ArenaPair → H
  arenas_withArenas : ∀ (h : H) (p : ArenaPair), arenas (withArenas h p) = p
  arenas_push : ∀ (h : H) (window : Window τ), arenas (Host.pushWindow h window) = arenas h
  arenas_pop : ∀ h : H, arenas (Host.popWindow h) = arenas h
  arenas_complete : ∀ h : H, arenas (Host.complete h) = arenas h
  replaced : ∀ h : H, (Host.acquire h).1 = (arenas h).acquire.1
  arenas_acquire : ∀ h : H, arenas (Host.acquire h).2 = (arenas h).acquire.2
  arenas_release : ∀ (h : H) (arena : ArenaId),
    arenas (Host.release h arena) = (arenas h).release arena

theorem ArenaHost.acquire_fst (h : ArenaHost τ) : (Host.acquire h).1 = h.arenas.acquire.1 :=
  rfl

instance : PairHost (ArenaHost τ) τ where
  arenas := ArenaHost.arenas
  withArenas h arenas := { h with arenas }
  arenas_withArenas _ _ := rfl
  arenas_push _ _ := rfl
  arenas_pop _ := rfl
  arenas_complete _ := rfl
  replaced := ArenaHost.acquire_fst
  arenas_acquire _ := rfl
  arenas_release _ _ := rfl

open PairHost

/-- What is done with the scopes of a host, and in them. -/
inductive Move (τ : Type)
  /-- A scope is entered. -/
  | enter (window : Window τ)
  /-- The innermost scope is left. -/
  | exit
  /-- Bytes of the current arena are handed out. -/
  | alloc (length : Nat)
  /-- One value is written into such bytes. -/
  | write (start length : Nat) (value : UInt8)

/-- Whether a scope is entered. -/
def Move.isEnter : Move τ → Bool
  | enter _ => true
  | _ => false

/-- How many scopes are entered. -/
def entered (moves : List (Move τ)) : Nat := moves.countP Move.isEnter

/-- A host with the scopes that are open on it. -/
structure Nest (H : Type) where
  /-- The open scopes. -/
  scopes : ScopeStack
  /-- The host. -/
  host : H

namespace Nest

variable [Host H τ] [PairHost H τ]

/-- The pair of arenas. -/
def pair (n : Nest H) : ArenaPair := arenas n.host

/-- One move. -/
def step (n : Nest H) : Move τ → Except ScopeStack.Error (Nest H)
  | .enter window =>
    let (scopes, host) := n.scopes.enter n.host window
    .ok ⟨scopes, host⟩
  | .exit => do
    let (scopes, host) ← n.scopes.exit n.host
    return ⟨scopes, host⟩
  | .alloc length => .ok { n with host := withArenas n.host (n.pair.allocated length) }
  | .write start length value =>
    .ok { n with host := withArenas n.host (n.pair.written start length value) }

/-- Moves in a row. -/
def run (n : Nest H) (moves : List (Move τ)) : Except ScopeStack.Error (Nest H) :=
  moves.foldlM step n

/-- The inside of a scope that is just entered: no scope is open in it. -/
def inside (n : Nest H) (window : Window τ) : Nest H :=
  ⟨.empty, (n.scopes.enter n.host window).2⟩

/-- The same host with more scopes open, all of them around those that are. -/
def within (n : Nest H) (outer : ScopeStack) : Nest H :=
  { n with scopes := ⟨n.scopes.saved ++ outer.saved⟩ }

theorem run_cons_eq_ok_iff {n n' : Nest H} {move : Move τ} {moves : List (Move τ)} :
    n.run (move :: moves) = .ok n' ↔ ∃ m, n.step move = .ok m ∧ m.run moves = .ok n' := by
  unfold run
  rw [List.foldlM_cons]
  cases n.step move with
  | error e =>
    constructor
    · nofun
    · rintro ⟨_, hm, -⟩
      cases hm
  | ok m =>
    refine ⟨fun h => ⟨m, rfl, h⟩, ?_⟩
    rintro ⟨_, hm, h⟩
    cases hm
    exact h

theorem run_append_eq_ok_iff {n n' : Nest H} {moves more : List (Move τ)} :
    n.run (moves ++ more) = .ok n' ↔ ∃ m, n.run moves = .ok m ∧ m.run more = .ok n' := by
  induction moves generalizing n with
  | nil => exact ⟨fun h => ⟨n, rfl, h⟩, fun ⟨_, hm, h⟩ => Except.ok.inj hm ▸ h⟩
  | cons move moves ih =>
    rw [List.cons_append, run_cons_eq_ok_iff]
    simp only [ih, run_cons_eq_ok_iff]
    exact ⟨fun ⟨m₁, h₁, m, h, h'⟩ => ⟨m, ⟨m₁, h₁, h⟩, h'⟩,
      fun ⟨m, ⟨m₁, h₁, h⟩, h'⟩ => ⟨m₁, h₁, m, h, h'⟩⟩

theorem run_singleton_eq_ok_iff {n n' : Nest H} {move : Move τ} :
    n.run [move] = .ok n' ↔ n.step move = .ok n' :=
  run_cons_eq_ok_iff.trans ⟨fun ⟨_, hm, h⟩ => Except.ok.inj h ▸ hm, fun h => ⟨n', h, rfl⟩⟩

/-! ## One move -/

theorem pair_enter (n : Nest H) (window : Window τ) :
    arenas (n.scopes.enter n.host window).2 = n.pair.acquire.2 := by
  show arenas (Host.acquire (Host.pushWindow n.host window)).2 = _
  rw [arenas_acquire, arenas_push]
  rfl

/-- Entering a scope keeps the arena that it replaces, and takes the one whose turn it is. -/
theorem step_enter (n : Nest H) (window : Window τ) :
    n.step (.enter window) = .ok ((n.inside window).within ⟨n.pair.current :: n.scopes.saved⟩) := by
  have hreplaced : (Host.acquire (Host.pushWindow n.host window)).1 = n.pair.current := by
    rw [replaced, arenas_push]
    rfl
  exact congrArg (fun arena => Except.ok ((n.inside window).within ⟨arena :: n.scopes.saved⟩))
    hreplaced

/-- Leaving a scope makes the arena current that it replaced; the turn stays where it is. -/
theorem step_exit_eq_ok_iff {n n' : Nest H} :
    n.step (.exit : Move τ) = .ok n' ↔ ∃ replaced saved, n.scopes.saved = replaced :: saved ∧
      n' = ⟨⟨saved⟩, Host.popWindow (Host.release (Host.complete n.host) replaced)⟩ := by
  obtain ⟨⟨saved⟩, host⟩ := n
  constructor
  · intro h
    cases saved with
    | nil => cases h
    | cons replaced saved => exact ⟨replaced, saved, rfl, (Except.ok.inj h).symm⟩
  · rintro ⟨replaced, saved, hsaved, rfl⟩
    cases hsaved
    rfl

theorem pair_exit (host : H) (arena : ArenaId) :
    arenas (Host.popWindow (Host.release (Host.complete host) arena)) =
      (arenas host).release arena := by
  rw [arenas_pop, arenas_release, arenas_complete]

/-- What a move can do: open a scope, close one, or work in the current arena. -/
theorem step_cases {n n' : Nest H} {move : Move τ} (h : n.step move = .ok n') :
    (∃ window, move = .enter window ∧
      n' = (n.inside window).within ⟨n.pair.current :: n.scopes.saved⟩) ∨
    (move = .exit ∧ ∃ replaced, n.scopes.saved = replaced :: n'.scopes.saved ∧
      n'.pair = n.pair.release replaced) ∨
    (move.isEnter = false ∧ move ≠ .exit ∧ n'.scopes = n.scopes ∧ n.pair.WorksTo n'.pair) := by
  cases move with
  | enter window => exact .inl ⟨window, rfl, Except.ok.inj (h.symm.trans (n.step_enter window))⟩
  | exit =>
    obtain ⟨replaced, saved, hsaved, rfl⟩ := step_exit_eq_ok_iff.mp h
    exact .inr (.inl ⟨rfl, replaced, hsaved, pair_exit n.host replaced⟩)
  | alloc length =>
    cases h
    refine .inr (.inr ⟨rfl, nofun, rfl, ?_⟩)
    exact (congrArg _ (arenas_withArenas n.host _)).mpr (n.pair.worksTo_allocated length)
  | write start length value =>
    cases h
    refine .inr (.inr ⟨rfl, nofun, rfl, ?_⟩)
    exact (congrArg _ (arenas_withArenas n.host _)).mpr
      (n.pair.worksTo_written start length value)

/-- Only leaving can fail, with no scope open. -/
theorem exists_step {n : Nest H} {move : Move τ} (h : move = .exit → n.scopes.saved ≠ []) :
    ∃ n', n.step move = .ok n' := by
  cases move with
  | exit =>
    obtain ⟨replaced, saved, hsaved⟩ := List.exists_cons_of_ne_nil (h rfl)
    exact ⟨_, step_exit_eq_ok_iff.mpr ⟨replaced, saved, hsaved, rfl⟩⟩
  | enter => exact ⟨_, rfl⟩
  | alloc => exact ⟨_, rfl⟩
  | write => exact ⟨_, rfl⟩

/-! ## Moves in an open scope -/

/-- Scopes around those that a move sees do not matter for it. -/
theorem step_within {n n' : Nest H} {move : Move τ} (h : n.step move = .ok n')
    (outer : ScopeStack) : (n.within outer).step move = .ok (n'.within outer) := by
  cases move with
  | enter window =>
    rw [step_enter] at h ⊢
    cases h
    rfl
  | exit =>
    obtain ⟨replaced, saved, hsaved, rfl⟩ := step_exit_eq_ok_iff.mp h
    have hsaved' : (n.within outer).scopes.saved = replaced :: (saved ++ outer.saved) :=
      congrArg (· ++ outer.saved) hsaved
    exact step_exit_eq_ok_iff.mpr ⟨replaced, _, hsaved', rfl⟩
  | alloc length =>
    cases h
    rfl
  | write start length value =>
    cases h
    rfl

theorem run_within {moves : List (Move τ)} {n n' : Nest H} (h : n.run moves = .ok n')
    (outer : ScopeStack) : (n.within outer).run moves = .ok (n'.within outer) := by
  induction moves generalizing n with
  | nil =>
    cases h
    rfl
  | cons move moves ih =>
    obtain ⟨m, hstep, hrun⟩ := run_cons_eq_ok_iff.mp h
    exact run_cons_eq_ok_iff.mpr ⟨m.within outer, step_within hstep outer, ih hrun⟩

/-- What holds in a scope whose arena is on `side`, after `count` scopes were entered in it. -/
structure Holds (side : Side) (rewinds count : Nat) (n : Nest H) : Prop where
  turn : n.pair.side = Side.flip^[count] side
  rewinds_eq : (n.pair.get side).rewinds = rewinds + count / 2
  /-- The arena is the last one that control returns to. -/
  bottom : (n.pair.current :: n.scopes.saved).getLast? = some side.id

section Invariant

variable {side : Side} {rewinds count : Nat}

/-- Entering a scope takes the arena of the open one, and empties it, at every second time. -/
theorem Holds.enter {n : Nest H} (h : n.Holds side rewinds count) (window : Window τ) :
    (Odd count → (n.inside window).pair.current = side.id ∧
      (n.inside window).pair.get side = (n.pair.get side).rewind) ∧
    (Even count → (n.inside window).pair.current ≠ side.id ∧
      (n.inside window).pair.get side = n.pair.get side) := by
  have hpair : (n.inside window).pair = n.pair.acquire.2 := n.pair_enter window
  have hnext : n.pair.side.flip = Side.flip^[count + 1] side := by
    rw [h.turn, ← Function.iterate_succ_apply' Side.flip count side]
  rw [hpair]
  refine ⟨fun hodd => ?_, fun heven => ?_⟩
  · rw [Side.turns_of_even hodd.add_one] at hnext
    exact ⟨congrArg Side.id hnext, hnext ▸ n.pair.get_acquire_self⟩
  · rw [Side.turns_of_odd heven.add_one] at hnext
    have hne : side ≠ n.pair.side.flip := fun heq => side.flip_ne (hnext ▸ heq).symm
    exact ⟨fun heq => hne (Side.id_injective heq).symm, n.pair.get_acquire_of_ne hne⟩

theorem Holds.step {n n' : Nest H} {move : Move τ} (h : n.Holds side rewinds count)
    (hstep : n.step move = .ok n') : n'.Holds side rewinds (count + entered [move]) := by
  rcases step_cases hstep with ⟨window, rfl, rfl⟩ | ⟨rfl, replaced, hsaved, hpair⟩ |
      ⟨hmove, -, hscopes, hwork⟩
  · have hpair : (n.inside window).pair = n.pair.acquire.2 := n.pair_enter window
    refine ⟨?_, ?_, ?_⟩
    · show (n.inside window).pair.side = Side.flip^[count + 1] side
      rw [hpair, Function.iterate_succ_apply', ← h.turn]
      rfl
    · show ((n.inside window).pair.get side).rewinds = rewinds + (count + 1) / 2
      rcases Nat.even_or_odd count with heven | hodd
      · rw [((h.enter window).2 heven).2, h.rewinds_eq, Nat.succ_div_of_not_dvd]
        exact fun hdvd => (Nat.not_even_iff_odd.mpr heven.add_one) (even_iff_two_dvd.mpr hdvd)
      · rw [((h.enter window).1 hodd).2, Nat.succ_div_of_dvd (even_iff_two_dvd.mp hodd.add_one)]
        exact congrArg (· + 1) h.rewinds_eq
    · show (_ :: n.pair.current :: n.scopes.saved).getLast? = _
      rw [List.getLast?_cons_cons, h.bottom]
  · -- control returns to the scope around, whose arena was kept in the stack
    have hbottom := h.bottom
    rw [hsaved, List.getLast?_cons_cons] at hbottom
    refine ⟨?_, ?_, ?_⟩
    · exact (congrArg ArenaPair.side hpair).trans h.turn
    · rw [hpair]
      exact h.rewinds_eq
    · rw [hpair]
      exact hbottom
  · have hcount : count + entered [move] = count := by
      rw [entered, List.countP_singleton, hmove]
      rfl
    rw [hcount]
    exact ⟨hwork.side_eq.trans h.turn, (hwork.rewinds_eq side).trans h.rewinds_eq,
      by rw [hwork.current_eq, hscopes, h.bottom]⟩

theorem Holds.run {moves : List (Move τ)} {n n' : Nest H} (h : n.Holds side rewinds count)
    (hrun : n.run moves = .ok n') : n'.Holds side rewinds (count + entered moves) := by
  induction moves generalizing n count with
  | nil =>
    cases hrun
    exact h
  | cons move moves ih =>
    obtain ⟨m, hstep, hrun⟩ := run_cons_eq_ok_iff.mp hrun
    have happend : entered ([move] ++ moves) = entered [move] + entered moves := List.countP_append
    have hcount : count + entered (move :: moves) = count + entered [move] + entered moves := by
      rw [Nat.add_assoc]
      exact congrArg (count + ·) happend
    exact hcount ▸ ih (h.step hstep) hrun

theorem holds_inside (n : Nest H) (window : Window τ) :
    (n.inside window).Holds n.pair.side.flip
      ((n.inside window).pair.get n.pair.side.flip).rewinds 0 := by
  have hpair : (n.inside window).pair = n.pair.acquire.2 := n.pair_enter window
  refine ⟨?_, rfl, ?_⟩
  · rw [hpair]
    rfl
  · rw [hpair]
    rfl

end Invariant

/-- Moves that enter no scope and leave none work in the current arena alone. -/
theorem get_of_entered_eq_zero {moves : List (Move τ)} {n n' : Nest H} (hrun : n.run moves = .ok n')
    (hscopes : n.scopes = .empty) (hnone : entered moves = 0) :
    n'.scopes = .empty ∧ n'.pair.current = n.pair.current ∧
      ∀ side : Side, n.pair.current ≠ side.id → n'.pair.get side = n.pair.get side := by
  induction moves generalizing n with
  | nil =>
    cases hrun
    exact ⟨hscopes, rfl, fun _ _ => rfl⟩
  | cons move moves ih =>
    obtain ⟨m, hstep, hrun⟩ := run_cons_eq_ok_iff.mp hrun
    have hnone' : move.isEnter = false ∧ entered moves = 0 := by
      have hall := List.countP_eq_zero.mp hnone
      exact ⟨Bool.eq_false_iff.mpr (hall move List.mem_cons_self),
        List.countP_eq_zero.mpr fun x hx => hall x (List.mem_cons_of_mem move hx)⟩
    rcases step_cases hstep with ⟨window, rfl, -⟩ | ⟨-, replaced, hsaved, -⟩ |
        ⟨-, -, hsame, hwork⟩
    · exact absurd hnone'.1 (by simp [Move.isEnter])
    · rw [hscopes] at hsaved
      cases hsaved
    · obtain ⟨hempty, hcurrent, hget⟩ := ih hrun (hsame.trans hscopes) hnone'.2
      refine ⟨hempty, hcurrent.trans hwork.current_eq, fun side hside => ?_⟩
      exact (hget side (hwork.current_eq ▸ hside)).trans (hwork.get_eq side hside)

/-- A scope that is entered and left again gives control back. -/
theorem run_visit {n v : Nest H} {window : Window τ} {visit : List (Move τ)}
    (hvisit : (n.inside window).run visit = .ok v) (hclosed : v.scopes = .empty) :
    ∃ n', n.run (.enter window :: visit ++ [.exit]) = .ok n' ∧ n'.scopes = n.scopes ∧
      n'.pair = v.pair.release n.pair.current := by
  have hopen : n.run (.enter window :: visit) =
      .ok (v.within ⟨n.pair.current :: n.scopes.saved⟩) :=
    run_cons_eq_ok_iff.mpr ⟨_, n.step_enter window, run_within hvisit _⟩
  have hsaved : (v.within ⟨n.pair.current :: n.scopes.saved⟩).scopes.saved =
      n.pair.current :: n.scopes.saved := by
    rw [within, hclosed]
    rfl
  obtain ⟨n', hn'⟩ : ∃ n', n' = Nest.mk ⟨n.scopes.saved⟩
    (Host.popWindow (Host.release (Host.complete v.host) n.pair.current)) := ⟨_, rfl⟩
  have hexit : (v.within ⟨n.pair.current :: n.scopes.saved⟩).step (.exit : Move τ) = .ok n' :=
    step_exit_eq_ok_iff.mpr ⟨_, _, hsaved, hn'⟩
  refine ⟨n', ?_, hn' ▸ rfl, hn' ▸ pair_exit v.host n.pair.current⟩
  exact run_append_eq_ok_iff.mpr ⟨_, hopen, run_singleton_eq_ok_iff.mpr hexit⟩

/-! ## Open scopes -/

/-- A scope that moves in a row leave open: where it is entered, and the moves made in it. -/
structure OpenScope (start : Nest H) (moves : List (Move τ)) (n : Nest H) where
  /-- The moves before the scope. -/
  before : List (Move τ)
  /-- Its window. -/
  window : Window τ
  /-- The moves in it. -/
  inner : List (Move τ)
  /-- Where it is entered. -/
  entry : Nest H
  /-- Where the moves in it lead, without the scopes around it. -/
  reached : Nest H
  moves_eq : moves = before ++ .enter window :: inner
  run_before : start.run before = .ok entry
  run_inner : (entry.inside window).run inner = .ok reached
  within_eq : n = reached.within ⟨entry.pair.current :: entry.scopes.saved⟩

namespace OpenScope

variable {start n n' : Nest H} {moves : List (Move τ)} {move : Move τ}

/-- How many scopes are open in it. -/
def position (o : OpenScope start moves n) : ℕ := o.reached.scopes.depth

/-- How many scopes were entered in it. -/
def count (o : OpenScope start moves n) : ℕ := entered o.inner

/-- The side of its arena. -/
def side (o : OpenScope start moves n) : Side := o.entry.pair.side.flip

/-- The scope that a last move opens. -/
def ofEnter (hmoves : start.run moves = .ok n) (window : Window τ) :
    OpenScope start (moves ++ [.enter window])
      ((n.inside window).within ⟨n.pair.current :: n.scopes.saved⟩) :=
  ⟨moves, window, [], n, n.inside window, rfl, hmoves, rfl, rfl⟩

/-- A last move in an open scope. -/
def snoc (o : OpenScope start moves n) {m : Nest H} (hmove : o.reached.step move = .ok m)
    (hstep : n.step move = .ok n') : OpenScope start (moves ++ [move]) n' where
  before := o.before
  window := o.window
  inner := o.inner ++ [move]
  entry := o.entry
  reached := m
  moves_eq := by
    have h := congrArg (· ++ [move]) o.moves_eq
    simpa only [List.append_assoc, List.cons_append] using h
  run_before := o.run_before
  run_inner := run_append_eq_ok_iff.mpr ⟨o.reached, o.run_inner, run_singleton_eq_ok_iff.mpr hmove⟩
  within_eq := by
    have hwithin := congrArg (Nest.step · move) o.within_eq
    exact Except.ok.inj (hstep.symm.trans (hwithin.trans (step_within hmove _)))

theorem depth_eq (o : OpenScope start moves n) :
    n.scopes.depth = o.position + (o.entry.scopes.depth + 1) := by
  have h := congrArg (fun n : Nest H => n.scopes.depth) o.within_eq
  exact h.trans List.length_append

/-- Moves in a row account for each scope that they leave open. -/
theorem exists_of_run (hstart : start.scopes = .empty) (hmoves : start.run moves = .ok n) {k : ℕ}
    (hk : k < n.scopes.depth) : ∃ o : OpenScope start moves n, o.position = k := by
  -- on the last move, which is a move in every scope that is open before and after it
  induction moves using List.reverseRecOn generalizing n k with
  | nil =>
    cases hmoves
    rw [hstart] at hk
    exact absurd hk (Nat.not_lt_zero k)
  | append_singleton moves move ih =>
    obtain ⟨n₀, hrun, hlast⟩ := run_append_eq_ok_iff.mp hmoves
    have hstep := run_singleton_eq_ok_iff.mp hlast
    -- a scope that was open before the move is still open after it
    have hstays : ∀ j, j + n.scopes.depth = k + n₀.scopes.depth → (move = .exit → j ≠ 0) →
        ∃ o : OpenScope start (moves ++ [move]) n, o.position = k := by
      intro j hj hexit
      obtain ⟨o, ho⟩ := ih hrun (show j < n₀.scopes.depth by omega)
      have hsaved : move = .exit → o.reached.scopes.saved ≠ [] := fun hmove hnil =>
        hexit hmove (ho ▸ congrArg List.length hnil)
      obtain ⟨m, hm⟩ := exists_step hsaved
      have hdepth := o.depth_eq
      have hdepth' : n.scopes.depth = _ := (o.snoc hm hstep).depth_eq
      have hentry : (o.snoc hm hstep).entry = o.entry := rfl
      exact ⟨o.snoc hm hstep, by rw [hentry] at hdepth'; omega⟩
    rcases step_cases hstep with ⟨window, rfl, rfl⟩ | ⟨rfl, replaced, hsaved, -⟩ |
        ⟨-, hmove, hscopes, -⟩
    · cases k with
      | zero => exact ⟨ofEnter hrun window, rfl⟩
      | succ k => exact hstays k (by rw [Nat.add_assoc, Nat.add_comm 1]; rfl) nofun
    · have hdepth : n₀.scopes.depth = n.scopes.depth + 1 := congrArg List.length hsaved
      exact hstays (k + 1) (by omega) fun _ => k.succ_ne_zero
    · exact hstays k (by rw [hscopes]) fun h => absurd h hmove

theorem pair_eq (o : OpenScope start moves n) : n.pair = o.reached.pair := by
  have h := congrArg Nest.pair o.within_eq
  exact h

theorem inside_eq (o : OpenScope start moves n) (window : Window τ) :
    n.inside window = o.reached.inside window := by
  have h := congrArg (Nest.inside · window) o.within_eq
  exact h

theorem holds (o : OpenScope start moves n) :
    o.reached.Holds o.side ((o.entry.inside o.window).pair.get o.side).rewinds o.count := by
  have h := (o.entry.holds_inside o.window).run o.run_inner
  rwa [Nat.zero_add] at h

end OpenScope

/-- The arena of an open scope after any moves. Each scope that the moves leave open is accounted
for, and its arena is current when control is in it. Entering one more scope takes the arena from it
and empties it if the number of scopes entered in it is odd, and leaves it alone if it is even,
whether or not those scopes are still open; so it was emptied once for every two of them. When
control is in the scope and one more is entered and left, the arena is what it was exactly if that
number is even and no scope was entered in the new one. -/
theorem arena_of_open_scope {start n : Nest H} {moves : List (Move τ)}
    (hstart : start.scopes = .empty) (hmoves : start.run moves = .ok n) :
    (∀ k < n.scopes.depth, ∃ o : OpenScope start moves n, o.position = k) ∧
    ∀ o : OpenScope start moves n,
      (n.pair.get o.side).rewinds =
        ((o.entry.inside o.window).pair.get o.side).rewinds + o.count / 2 ∧
      (∀ next,
        (Odd o.count → (n.inside next).pair.current = o.side.id ∧
          (n.inside next).pair.get o.side = (n.pair.get o.side).rewind) ∧
        (Even o.count → (n.inside next).pair.current ≠ o.side.id ∧
          (n.inside next).pair.get o.side = n.pair.get o.side)) ∧
      (o.position = 0 → n.pair.current = o.side.id ∧
        ∀ next visit v, (n.inside next).run visit = .ok v → v.scopes = .empty →
          ∃ n', n.run (.enter next :: visit ++ [.exit]) = .ok n' ∧ n'.scopes = n.scopes ∧
            n'.pair.current = o.side.id ∧
            (n'.pair.get o.side = n.pair.get o.side ↔ Even o.count ∧ entered visit = 0)) := by
  refine ⟨fun k hk => OpenScope.exists_of_run hstart hmoves hk, fun o => ?_⟩
  rw [o.pair_eq]
  refine ⟨o.holds.rewinds_eq, fun next => o.inside_eq next ▸ o.holds.enter next,
    fun hposition => ?_⟩
  have hclosed : o.reached.scopes.saved = [] := List.length_eq_zero_iff.mp hposition
  have hcurrent : o.reached.pair.current = o.side.id := by
    have hbottom := o.holds.bottom
    rw [hclosed] at hbottom
    exact Option.some.inj hbottom
  refine ⟨hcurrent, fun next visit v hvisit hv => ?_⟩
  obtain ⟨n', hrun, hscopes, hreturn⟩ := run_visit hvisit hv
  rw [o.pair_eq] at hreturn
  refine ⟨n', hrun, hscopes, hreturn ▸ hcurrent, ?_, ?_⟩
  · -- an arena that is what it was has not been emptied, and every second scope empties it
    intro hsame
    obtain ⟨m', hrun', -, hreturn'⟩ := run_visit (o.inside_eq next ▸ hvisit) hv
    have hafter := (o.holds.run hrun').rewinds_eq
    have hcount : entered (.enter next :: visit ++ [.exit]) = entered visit + 1 := by
      simp [entered, Move.isEnter, List.countP_cons]
    rw [hreturn', ← hreturn, hsame, o.holds.rewinds_eq, hcount] at hafter
    rw [Nat.even_iff]
    omega
  · rintro ⟨heven, hnone⟩
    obtain ⟨hother, hkept⟩ := (o.inside_eq next ▸ o.holds.enter next).2 heven
    obtain ⟨-, -, hget⟩ := get_of_entered_eq_zero hvisit rfl hnone
    rw [hreturn]
    exact (hget o.side hother).trans hkept

/-- A scope fills its arena of four bytes, and a scope is entered in it and left again. -/
def refilled : List (Move Rat) :=
  [.enter ⟨1, 1⟩, .alloc 4, .write 0 4 165, .enter ⟨2, 1⟩, .exit]

/-- Where this leads on a new host: control is in the first scope, and its arena is full. -/
def refilledNest : Nest (ArenaHost Rat) where
  scopes := ⟨[ArenaPair.outside]⟩
  host := ⟨[⟨1, 1⟩], ⟨#[165, 165, 165, 165], 4, 1⟩, ⟨#[0, 0, 0, 0], 0, 1⟩, .right, Side.left.id⟩

/-- The next scope is the second one that is open, and yet it takes the arena of the first. -/
theorem arena_of_open_scope_refilled :
    Nest.run ⟨.empty, .ofCapacity 4⟩ refilled = .ok refilledNest ∧
    ∃ o : OpenScope ⟨.empty, .ofCapacity 4⟩ refilled refilledNest, o.count = 1 ∧
      refilledNest.pair.current = o.side.id ∧
      (refilledNest.inside ⟨3, 1⟩).pair.current = o.side.id ∧
      (refilledNest.inside ⟨3, 1⟩).pair.get o.side = (refilledNest.pair.get o.side).rewind := by
  have hrun : Nest.run ⟨.empty, .ofCapacity 4⟩ refilled = .ok refilledNest := by rfl
  have hinner : Nest.run (Nest.inside (⟨.empty, .ofCapacity 4⟩ : Nest (ArenaHost Rat)) ⟨1, 1⟩)
      refilled.tail = .ok ⟨.empty, refilledNest.host⟩ := by rfl
  let o : OpenScope ⟨.empty, .ofCapacity 4⟩ refilled refilledNest :=
    ⟨[], ⟨1, 1⟩, refilled.tail, _, _, rfl, rfl, hinner, rfl⟩
  obtain ⟨-, htaken, hcurrent⟩ := (arena_of_open_scope rfl hrun).2 o
  have hodd : Odd o.count := odd_one
  exact ⟨hrun, o, rfl, (hcurrent rfl).1, (htaken ⟨3, 1⟩).1 hodd⟩

end Nest

end Metronome
