import Metronome.Proofs.Nesting
import Metronome.Proofs.Scopes

/-!
# Scopes unwind in order

Scopes may be entered and left in any order, also left more often than entered: leaving is refused
while no scope is open. Every other exit belongs to one entry, the one with nothing but whole scopes
since (`exists_entry`), and takes the windows and the arena back to where they were before it. This
holds of every host that keeps its windows and arenas as a stack (`exit_of_balanced`).

The host that keeps a tally has no stack of arenas but a counter: each entry takes an arena with a
higher name than any before. So the arenas of the open scopes ascend from the outermost to the
innermost one, and they are never shared (`Orderly`). `unwinds_in_order` puts this together with the
tallies themselves.
-/

namespace Metronome

variable {τ H : Type}

namespace Nest

open StackHost

/-- What is asked of a scope stack and its host. -/
inductive Call (τ : Type)
  /-- To enter a scope. -/
  | enter (window : Window τ)
  /-- To leave the innermost scope. -/
  | exit

/-- Whether a scope is to be entered. -/
def Call.isEnter : Call τ → Bool
  | enter _ => true
  | exit => false

section Calls

variable [Host H τ]

/-- What a call answers, and what it leaves behind. A refusal changes nothing. -/
def answer (n : Nest H) : Call τ → Except ScopeStack.Error Unit × Nest H
  | .enter window =>
    let (scopes, host) := n.scopes.enter n.host window
    (.ok (), ⟨scopes, host⟩)
  | .exit =>
    match n.scopes.exit n.host with
    | .ok (scopes, host) => (.ok (), ⟨scopes, host⟩)
    | .error e => (.error e, n)

/-- What calls in a row leave behind, whatever they answer. -/
def after (n : Nest H) (calls : List (Call τ)) : Nest H :=
  calls.foldl (fun n call => (n.answer call).2) n

theorem after_append (n : Nest H) (calls more : List (Call τ)) :
    n.after (calls ++ more) = (n.after calls).after more :=
  List.foldl_append

theorem answer_exit_of_closed {n : Nest H} (h : n.scopes.depth = 0) :
    n.answer .exit = (.error .underflow, n) := by
  obtain ⟨⟨saved⟩, host⟩ := n
  obtain rfl : saved = [] := List.length_eq_zero_iff.mp h
  rfl

end Calls

/-- Calls that leave every scope they enter, and no other. -/
inductive Balanced : List (Call τ) → Prop
  /-- Nothing is asked. -/
  | nil : Balanced []
  /-- At last a scope is entered and left. -/
  | visit {calls inner : List (Call τ)} (window : Window τ) (earlier : Balanced calls)
      (inside : Balanced inner) : Balanced (calls ++ .enter window :: (inner ++ [.exit]))

section Stack

variable [Host H τ] [StackHost H τ]

/-- The open scopes, and what the host tells of them. -/
def openScopes (n : Nest H) : ScopeStack × HostStack τ := (n.scopes, stack n.host)

/-- An exit with nothing left open since an entry undoes it. -/
theorem answer_exit {n m : Nest H} (window : Window τ)
    (h : m.openScopes = (n.after [.enter window]).openScopes) :
    ∃ n', m.answer .exit = (.ok (), n') ∧ n'.openScopes = n.openScopes := by
  obtain ⟨host, hexit, hstack⟩ := ScopeStack.exit_of_enter (Prod.mk.inj h).1 (Prod.mk.inj h).2
  refine ⟨⟨n.scopes, host⟩, ?_, Prod.ext rfl hstack⟩
  rw [answer, hexit]

/-- Balanced calls leave the open scopes as they were. -/
theorem Balanced.openScopes_eq {calls : List (Call τ)} (h : Balanced calls) (n : Nest H) :
    (n.after calls).openScopes = n.openScopes := by
  induction h generalizing n with
  | nil => rfl
  | @visit calls inner window _ _ ihcalls ihinner =>
    rw [after_append, ← List.singleton_append, after_append, after_append, ← ihcalls n]
    obtain ⟨n', hexit, hsame⟩ :=
      answer_exit window (ihinner ((n.after calls).after [.enter window]))
    show (answer _ _).2.openScopes = _
    rw [hexit, hsame]

/-- An exit takes the scopes back to where they were before the entry that it belongs to. -/
theorem exit_of_balanced {inside : List (Call τ)} (h : Balanced inside) (n : Nest H)
    (window : Window τ) : ∃ n', (n.after (.enter window :: inside)).answer .exit = (.ok (), n') ∧
      n'.openScopes = n.openScopes := by
  refine answer_exit window ?_
  rw [← List.singleton_append, after_append, h.openScopes_eq]

/-- While a scope is open there is an entry with nothing but whole scopes since. -/
theorem exists_entry {start : Nest H} (hstart : start.scopes.depth = 0) (calls : List (Call τ))
    (hopen : (start.after calls).scopes.depth ≠ 0) : ∃ before window inside,
      calls = before ++ .enter window :: inside ∧ Balanced inside := by
  obtain rfl | ⟨calls, call, rfl⟩ := calls.eq_nil_or_concat
  · exact absurd hstart hopen
  rw [List.concat_eq_append] at *
  cases call with
  | enter window => exact ⟨calls, window, [], rfl, .nil⟩
  | exit =>
    have hlast : (start.after (calls ++ [.exit])) = ((start.after calls).answer .exit).2 :=
      after_append start calls [.exit]
    -- the exit was not refused, so a scope was open before it
    have hbefore : (start.after calls).scopes.depth ≠ 0 := fun hclosed => by
      rw [hlast, answer_exit_of_closed hclosed] at hopen
      exact hopen hclosed
    obtain ⟨before, window, inside, rfl, hinside⟩ := exists_entry hstart calls hbefore
    -- it left the scope that was entered last, and another one is open around that
    obtain ⟨n', hexit, hsame⟩ := exit_of_balanced hinside (start.after before) window
    have houter : (start.after before).scopes.depth ≠ 0 := by
      rw [hlast, after_append, hexit, (Prod.mk.inj hsame).1] at hopen
      exact hopen
    obtain ⟨outer, window', inside', rfl, hinside'⟩ := exists_entry hstart before houter
    exact ⟨outer, window', inside' ++ .enter window :: (inside ++ [.exit]), by simp,
      .visit window hinside' hinside⟩
termination_by calls.length
decreasing_by all_goals grind

end Stack

/-! ## The host that keeps a tally -/

/-- The arenas that the open scopes run in, and the one outside them, outermost first. -/
def arenas (n : Nest (TallyHost τ)) : List ArenaId :=
  n.scopes.saved.reverse ++ [n.host.current]

/-- What holds of a scope stack and the tallies of its host after `entered` entries. -/
structure Orderly (entered : Nat) (n : Nest (TallyHost τ)) : Prop where
  windows_length : n.host.windows.length = n.scopes.depth
  pushed_eq : n.host.pushed = n.host.popped + n.scopes.depth
  completed_eq : n.host.completed = n.host.popped
  last_eq : n.host.lastArena.id.toNat = entered
  current_le : n.host.current.id ≤ n.host.lastArena.id
  /-- From the innermost scope outward the arenas have lower and lower names. -/
  descending : (n.host.current :: n.scopes.saved).Pairwise fun a b => b.id < a.id

theorem orderly_empty : Orderly 0 (⟨.empty, .empty⟩ : Nest (TallyHost τ)) :=
  ⟨rfl, rfl, rfl, rfl, Nat.le_refl 0, List.pairwise_singleton _ _⟩

section Orderly

variable {n : Nest (TallyHost τ)} {entered : Nat}

/-- An entry takes an arena with a higher name than any before. -/
theorem Orderly.enter (h : n.Orderly entered) (hfew : entered + 1 < UInt32.size)
    (window : Window τ) : (n.answer (.enter window)).2.Orderly (entered + 1) := by
  have hfresh : (n.host.lastArena.id + 1).toNat = entered + 1 := by
    rw [UInt32.toNat_add, h.last_eq]
    exact Nat.mod_eq_of_lt hfew
  have hlt : n.host.lastArena.id < n.host.lastArena.id + 1 := by
    rw [UInt32.lt_iff_toNat_lt, hfresh, h.last_eq]
    exact Nat.lt_succ_self entered
  refine ⟨congrArg (· + 1) h.windows_length, ?_, h.completed_eq, hfresh, UInt32.le_refl _, ?_⟩
  · have hpushed := h.pushed_eq
    show n.host.pushed + 1 = n.host.popped + (n.scopes.depth + 1)
    omega
  · refine List.pairwise_cons.mpr ⟨fun a ha => ?_, h.descending⟩
    have hle : a.id ≤ n.host.current.id := by
      rcases List.mem_cons.mp ha with rfl | ha
      · exact UInt32.le_refl _
      · exact UInt32.le_of_lt (List.rel_of_pairwise_cons h.descending ha)
    exact UInt32.lt_of_le_of_lt (UInt32.le_trans hle h.current_le) hlt

/-- An exit goes back to the arena that the scope replaced, or is refused. -/
theorem Orderly.exit (h : n.Orderly entered) : (n.answer .exit).2.Orderly entered := by
  obtain ⟨⟨saved⟩, host⟩ := n
  cases saved with
  | nil => exact h
  | cons replaced saved =>
    have hlen : host.windows.length = saved.length + 1 := h.windows_length
    have hpushed : host.pushed = host.popped + (saved.length + 1) := h.pushed_eq
    obtain ⟨hlower, hrest⟩ := List.pairwise_cons.mp h.descending
    have hreplaced : replaced.id < host.current.id := hlower replaced List.mem_cons_self
    refine ⟨?_, ?_, congrArg (· + 1) h.completed_eq, h.last_eq, ?_, hrest⟩
    · show host.windows.tail.length = saved.length
      rw [List.length_tail, hlen, Nat.add_sub_cancel]
    · show host.pushed = host.popped + 1 + saved.length
      omega
    · exact UInt32.le_trans (UInt32.le_of_lt hreplaced) h.current_le

theorem Orderly.after (h : n.Orderly entered) (calls : List (Call τ))
    (hfew : entered + calls.countP Call.isEnter < UInt32.size) :
    (n.after calls).Orderly (entered + calls.countP Call.isEnter) := by
  induction calls generalizing n entered with
  | nil => exact h
  | cons call calls ih =>
    cases call with
    | enter window =>
      have hcount : entered + (Call.enter window :: calls).countP Call.isEnter =
          entered + 1 + calls.countP Call.isEnter := by
        rw [List.countP_cons_of_pos rfl]
        omega
      rw [hcount] at hfew ⊢
      exact ih (h.enter (by omega) window) hfew
    | exit =>
      rw [List.countP_cons_of_neg Bool.false_ne_true] at hfew ⊢
      exact ih h.exit hfew

theorem Orderly.ascending (h : n.Orderly entered) :
    n.arenas.Pairwise fun a b => a.id < b.id := by
  rw [arenas, ← List.reverse_cons, List.pairwise_reverse]
  exact h.descending

end Orderly

/-- Scopes are left in the reverse of the order in which they were entered. After any calls on a new
scope stack and a new host, among them any number of exits too many, as many scopes are open as
windows, and as there were more windows opened than closed; work was waited for at each window that
was closed. With no scope open an exit is refused and changes nothing. Otherwise there is an entry
with nothing but whole scopes since, and the exit takes the scopes, the windows and the arena back
to where they were before it. The arenas ascend from the outermost one to the current one, so no two
open scopes share theirs. A frame can end exactly with no scope open, and else the number of scopes
is reported. -/
theorem unwinds_in_order (calls : List (Call τ))
    (hfew : calls.countP Call.isEnter < UInt32.size) :
    let start : Nest (TallyHost τ) := ⟨.empty, .empty⟩
    let n := start.after calls
    (n.scopes.depth = n.host.windows.length ∧
      (n.scopes.depth : Int) = n.host.pushed - n.host.popped ∧
      n.host.completed = n.host.popped) ∧
    (n.scopes.depth = 0 → n.answer .exit = (.error .underflow, n)) ∧
    (n.scopes.depth ≠ 0 → ∃ before window inside, calls = before ++ .enter window :: inside ∧
      Balanced inside) ∧
    (∀ before window inside, calls = before ++ .enter window :: inside → Balanced inside →
      ∃ n', n.answer .exit = (.ok (), n') ∧ n'.scopes = (start.after before).scopes ∧
        n'.host.windows = (start.after before).host.windows ∧
        n'.host.current = (start.after before).host.current) ∧
    (n.arenas.Pairwise (fun a b => a.id < b.id) ∧ n.arenas.Nodup) ∧
    (n.scopes.balanced = .ok () ↔ n.scopes.depth = 0) ∧
    (n.scopes.depth ≠ 0 → n.scopes.balanced = .error (.leaked n.scopes.depth)) := by
  intro start n
  have h : n.Orderly (0 + calls.countP Call.isEnter) :=
    orderly_empty.after calls (by rwa [Nat.zero_add])
  refine ⟨⟨h.windows_length.symm, ?_, h.completed_eq⟩, answer_exit_of_closed,
    exists_entry rfl calls, ?_, ⟨h.ascending, ?_⟩, ?_, fun hopen => if_neg hopen⟩
  · have hpushed := h.pushed_eq
    omega
  · rintro before window inside rfl hinside
    obtain ⟨n', hexit, hsame⟩ := exit_of_balanced hinside (start.after before) window
    obtain ⟨hscopes, hstack⟩ := Prod.mk.inj hsame
    rw [← after_append] at hexit
    exact ⟨n', hexit, hscopes, congrArg HostStack.windows hstack, congrArg HostStack.current hstack⟩
  · refine h.ascending.imp fun hlt heq => ?_
    exact absurd (congrArg ArenaId.id heq) (UInt32.ne_of_lt hlt)
  · unfold ScopeStack.balanced
    split_ifs with hclosed
    · exact iff_of_true rfl hclosed
    · exact iff_of_false nofun hclosed

/-- After an exit too many, a scope with another one in it: the exit goes back to the beginning. -/
theorem unwinds_in_order_refused :
    let start : Nest (TallyHost Rat) := ⟨.empty, .empty⟩
    let n := start.after [.exit, .enter ⟨1, 1⟩, .enter ⟨2, 1⟩, .exit]
    n.arenas = [⟨0⟩, ⟨1⟩] ∧ n.scopes.balanced = .error (.leaked 1) ∧
      ∃ n', n.answer .exit = (.ok (), n') ∧ n'.host.windows = [] ∧ n'.host.current = ⟨0⟩ ∧
        n'.answer .exit = (.error .underflow, n') := by
  intro start n
  have hinside : Balanced ([] ++ .enter ⟨2, 1⟩ :: ([] ++ [(.exit : Call Rat)])) :=
    .visit ⟨2, 1⟩ .nil .nil
  obtain ⟨-, -, -, hback, -, -, hleaked⟩ :=
    unwinds_in_order [.exit, .enter ⟨1, 1⟩, .enter ⟨2, 1⟩, (.exit : Call Rat)] (by decide)
  obtain ⟨n', hexit, hscopes, hwindows, hcurrent⟩ := hback [.exit] ⟨1, 1⟩ _ rfl hinside
  exact ⟨rfl, hleaked Nat.one_ne_zero, n', hexit, hwindows, hcurrent,
    answer_exit_of_closed (congrArg ScopeStack.depth hscopes)⟩

end Nest

end Metronome
