import Metronome.World

/-!
# Scopes and logs of a world

Closing a scope gives an arena and a window back to the host and touches nothing else of a world; it
fails only if no scope is open. An event is added at the end of the log.
-/

namespace Metronome

variable {τ φ H : Type}

/-- The invocation that was logged last. -/
def World.invocation? (w : World τ φ H) : Option (Invocation τ φ) :=
  match w.past with
  | .invoked i :: _ => some i
  | _ => none

/-- The invocation of an event. -/
def Event.invocation? : Event τ φ → Option (Invocation τ φ)
  | .invoked i => some i
  | _ => none

namespace World

theorem invocations_record (w : World τ φ H) (e : Event τ φ) :
    (w.record e).invocations = w.invocations ++ e.invocation?.toList := by
  unfold invocations
  rw [events_record, List.filterMap_append]
  cases e <;> rfl

/-- A body that returns from a scope, and leaves a scope open. -/
def Steady (body : World τ φ H → Except Fault (World τ φ H)) : Prop :=
  ∀ w, 0 < w.depth → ∃ w', body w = .ok w' ∧ 0 < w'.depth

variable [Host H τ]

/-- What a closed scope leaves as it was. -/
theorem exitScope_frame {w w' : World τ φ H} (h : w.exitScope = .ok w') :
    w' = { w with host := w'.host, scopes := w'.scopes } := by
  unfold exitScope at h
  split at h <;> cases h
  rfl

theorem exists_exitScope {w : World τ φ H} (h : 0 < w.depth) : ∃ w', w.exitScope = .ok w' := by
  unfold exitScope ScopeStack.exit
  cases hsaved : w.scopes.saved with
  | nil => simp [depth, ScopeStack.depth, hsaved] at h
  | cons replaced saved => exact ⟨_, rfl⟩

/-- A scope cannot be closed only if none is open. -/
theorem exitScope_cases (w : World τ φ H) :
    (∃ w', w.exitScope = .ok w') ∨ w.exitScope = .error .scopeUnderflow := by
  unfold exitScope ScopeStack.exit
  cases w.scopes.saved with
  | nil => exact Or.inr rfl
  | cons replaced saved => exact Or.inl ⟨_, rfl⟩

end World

end Metronome
