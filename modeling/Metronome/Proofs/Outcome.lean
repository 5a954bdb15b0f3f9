import Metronome.Fault

/-!
# Outcomes

Runs are sequences of steps that return or fault. A sequence returns if each of its steps does, and
a pass over a list returns what the pure pass gives if it returns on every element.
-/

namespace Metronome

variable {α β : Type}

@[simp] theorem ok_bind (a : α) (f : α → Except Fault β) : (Except.ok a >>= f) = f a :=
  rfl

@[simp] theorem error_bind (e : Fault) (f : α → Except Fault β) :
    (Except.error e >>= f) = .error e :=
  rfl

@[simp] theorem pure_eq_ok (a : α) : (pure a : Except Fault α) = .ok a :=
  rfl

theorem bind_eq_ok_iff {x : Except Fault α} {f : α → Except Fault β} {b : β} :
    (x >>= f) = .ok b ↔ ∃ a, x = .ok a ∧ f a = .ok b := by
  cases x <;> simp

theorem filterM_eq_ok {p : α → Except Fault Bool} {q : α → Bool} {l : List α}
    (h : ∀ a ∈ l, p a = .ok (q a)) : l.filterM p = .ok (l.filter q) := by
  have haux : ∀ l acc : List α, (∀ a ∈ l, p a = .ok (q a)) →
      l.filterAuxM p acc = .ok ((l.filter q).reverse ++ acc) := by
    intro l
    induction l with
    | nil =>
      intro acc _
      rfl
    | cons a l ih =>
      intro acc h
      have hrest : ∀ b ∈ l, p b = .ok (q b) := fun b hb => h b (List.mem_cons_of_mem a hb)
      rw [List.filterAuxM, h a List.mem_cons_self, ok_bind, ih _ hrest]
      cases hq : q a <;> simp [hq]
  simp [List.filterM, haux l [] h]

theorem mapM_eq_ok {f : α → Except Fault β} {g : α → β} {l : List α}
    (h : ∀ a ∈ l, f a = .ok (g a)) : l.mapM f = .ok (l.map g) := by
  induction l with
  | nil => rfl
  | cons a l ih =>
    have hrest := ih fun b hb => h b (List.mem_cons_of_mem a hb)
    rw [List.mapM_cons, h a List.mem_cons_self, ok_bind, hrest]
    rfl

/-- A checked sum is the sum, if there is one. -/
theorem addChecked_eq_ok_iff {a b r : UInt32} :
    addChecked a b = .ok r ↔ a.toNat + b.toNat < UInt32.size ∧ a + b = r := by
  unfold addChecked
  split
  · simp [*]
  · simp [*]

end Metronome
