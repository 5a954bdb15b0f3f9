import Mathlib.Algebra.Order.Kleene
import Mathlib.Computability.Language
import Metronome.Proofs.Bracket

/-!
# The discipline of a bracket

The hooks of a driver may do anything, so what a bracket promises is the order in which it calls
them. `Hooks.logged` are the same hooks with a log in which each call leaves a mark, and a
conversation is any sequence of queries, runs and changes of the state on a new bracket. `Walk` says
which logs a conversation can have: each query adds the marks of one `Step`, and each body its own.
What a bracket promises of its log is an induction on the walk.

A run ends if its driver wants more finitely often (`exists_trace`). Whether it then returns is a
matter of the word in which it counts its bodies (`Trace.run_eq`), and of the hooks: a long
countdown does not return, nor does a driver that refuses to be left (`unreturned_countdowns`).
-/

namespace Metronome

namespace Bracket

open scoped Computability

variable {σ : Type} {mode : Mode} {hooks : Hooks σ} {body : σ → Except Fault σ}

/-! ## A log of the calls -/

/-- A call that a bracket makes, with the answer if it is a question. -/
inductive Mark
  /-- Asked whether to enter. -/
  | asked (wanted : Bool)
  /-- Entered. -/
  | entered
  /-- Asked whether to go on. -/
  | askedMore (more : Bool)
  /-- Entered again. -/
  | continued
  /-- Left. -/
  | left
  /-- The body ran. -/
  | ran
deriving DecidableEq

/-- The turning points, at which a driver acts. -/
def Mark.turns : Mark → Bool
  | .entered | .continued | .left => true
  | _ => false

/-- The marks at which an open invocation begins or ends. -/
def Mark.bounds : Mark → Bool
  | .entered | .left => true
  | _ => false

/-- The turning points before a body. -/
def Mark.opens : Mark → Bool
  | .entered | .continued => true
  | _ => false

/-- The turning points before a body, and the body. -/
def Mark.invokes (m : Mark) : Bool := m.opens || m = .ran

/-- The same hooks, each of which leaves its mark. -/
def Hooks.logged (hooks : Hooks σ) : Hooks (σ × List Mark) where
  wantsEntry := fun (s, log) => do
    let (wanted, s) ← hooks.wantsEntry s
    return (wanted, s, log ++ [.asked wanted])
  enter := fun (s, log) => return (← hooks.enter s, log ++ [.entered])
  wantsMore := fun (s, log) => do
    let (more, s) ← hooks.wantsMore s
    return (more, s, log ++ [.askedMore more])
  again := fun (s, log) => return (← hooks.again s, log ++ [.continued])
  leave := fun (s, log) => return (← hooks.leave s, log ++ [.left])

/-- The same body, which leaves its mark. -/
def loggedBody (body : σ → Except Fault σ) : σ × List Mark → Except Fault (σ × List Mark) :=
  fun (s, log) => return (← body s, log ++ [.ran])

/-! ## Conversations -/

/-- What can happen to a bracket. -/
inductive Act (σ : Type)
  /-- A query. -/
  | query
  /-- A run. -/
  | run (body : σ → Except Fault σ)
  /-- Between calls, the state changes. -/
  | change (f : σ → σ)

/-- The same act beside a log. -/
def Act.logged : Act σ → Act (σ × List Mark)
  | .query => .query
  | .run body => .run (loggedBody body)
  | .change f => .change fun (s, log) => (f s, log)

/-- A run without its log. -/
def Run.alone (r : Run (σ × List Mark)) : Run σ := ⟨r.bracket.alone, r.found.map Prod.fst⟩

/-- The marks of one query, between whether the bracket was open before it and is after it. The
latter is also its answer. -/
inductive Step (mode : Mode) : Bool → List Mark → Bool → Prop
  /-- The driver does not want to enter. -/
  | declines : Step mode false [.asked false] false
  /-- The driver enters. -/
  | enters : Step mode false [.asked true, .entered] true
  /-- The driver goes on. -/
  | continues (h : mode = .repeatWhile) : Step mode true [.askedMore true, .continued] true
  /-- The driver has had enough. -/
  | stops (h : mode = .repeatWhile) : Step mode true [.askedMore false, .left] false
  /-- There was one invocation only. -/
  | ends (h : mode = .once) : Step mode true [.left] false

/-- Every query takes a step. -/
theorem Step.of_query {b b' : Bracket (σ × List Mark)} {runs : Bool}
    (h : query mode hooks.logged b = .ok (runs, b')) : b'.active = runs ∧
      ∃ marks, Step mode b.active marks runs ∧ b'.context = b.context ++ marks := by
  obtain ⟨active, s, log⟩ := b
  cases active with
  | false =>
    rw [query_of_inactive rfl] at h
    simp only [Hooks.logged, bind_assoc, bind_eq_ok_iff] at h
    obtain ⟨⟨wanted, s₁⟩, -, _, ⟨⟩, h⟩ := h
    cases wanted with
    | false =>
      cases h
      exact ⟨rfl, _, .declines, rfl⟩
    | true =>
      simp only [pure_eq_ok, if_true, ok_bind, bind_eq_ok_iff] at h
      obtain ⟨s₂, -, ⟨⟩⟩ := h
      exact ⟨rfl, _, .enters, by simp [context]⟩
  | true =>
    rw [query_of_active rfl] at h
    cases mode with
    | once =>
      simp only [goesOn, Hooks.logged, ok_bind, Bool.false_eq_true, if_false, pure_eq_ok,
        bind_assoc, bind_eq_ok_iff] at h
      obtain ⟨s₁, -, ⟨⟩⟩ := h
      exact ⟨rfl, _, .ends rfl, rfl⟩
    | repeatWhile =>
      simp only [goesOn, Hooks.logged, bind_assoc, bind_eq_ok_iff] at h
      obtain ⟨⟨more, s₁⟩, -, _, ⟨⟩, h⟩ := h
      cases more with
      | false =>
        simp only [pure_eq_ok, Bool.false_eq_true, if_false, ok_bind, bind_eq_ok_iff] at h
        obtain ⟨s₂, -, ⟨⟩⟩ := h
        exact ⟨rfl, _, .stops rfl, by simp [context]⟩
      | true =>
        simp only [pure_eq_ok, if_true, ok_bind, bind_eq_ok_iff] at h
        obtain ⟨s₂, -, ⟨⟩⟩ := h
        exact ⟨rfl, _, .continues rfl, by simp [context]⟩

/-- The logs of conversations, and whether they leave the bracket open. -/
inductive Walk (mode : Mode) : List Mark → Bool → Prop
  /-- Nothing has been called. -/
  | start : Walk mode [] false
  /-- A query. -/
  | step {log marks : List Mark} {was now : Bool} (h : Walk mode log was)
      (step : Step mode was marks now) : Walk mode (log ++ marks) now
  /-- A body. -/
  | ran {log : List Mark} {now : Bool} (h : Walk mode log now) : Walk mode (log ++ [.ran]) now

theorem Walk.query {b b' : Bracket (σ × List Mark)} {runs : Bool}
    (hw : Walk mode b.context b.active) (h : query mode hooks.logged b = .ok (runs, b')) :
    Walk mode b'.context b'.active := by
  obtain ⟨hactive, marks, hstep, hlog⟩ := Step.of_query h
  rw [hlog, hactive]
  exact hw.step hstep

theorem loggedBody_eq_ok {x y : σ × List Mark} (h : loggedBody body x = .ok y) :
    y.2 = x.2 ++ [.ran] := by
  obtain ⟨s, -, h⟩ := bind_eq_ok_iff.mp h
  cases h
  rfl

/-- A run that ends goes on with the walk. It leaves the bracket closed, and its marks hold a body
after each turning point that opens one, and no other. -/
theorem Walk.trace {b b' : Bracket (σ × List Mark)} {found : List (σ × List Mark)}
    (h : Trace mode hooks.logged (loggedBody body) b found b') (hw : Walk mode b.context b.active) :
    Walk mode b'.context b'.active ∧ b'.active = false ∧ ∃ marks, b'.context = b.context ++ marks ∧
      (marks.filter Mark.opens).length = found.length ∧
      marks.filter Mark.invokes = (marks.filter Mark.opens).flatMap fun m => [m, .ran] := by
  induction h with
  | declined hq =>
    obtain ⟨hactive, marks, hstep, hlog⟩ := Step.of_query hq
    refine ⟨hw.query hq, hactive, marks, hlog, ?_⟩
    clear hw
    generalize Bracket.active _ = was at hstep
    cases hstep <;> exact ⟨rfl, rfl⟩
  | @ran b b₁ b' x found hq hbody _ ih =>
    obtain ⟨-, marks, hstep, hlog⟩ := Step.of_query hq
    have hran : Walk mode (b₁.context ++ [.ran]) b₁.active := (hw.query hq).ran
    have hcontext : (⟨b₁.active, x⟩ : Bracket _).context = b₁.context ++ [.ran] :=
      loggedBody_eq_ok hbody
    rw [hcontext] at ih
    obtain ⟨hwalk, hclosed, rest, hrest, hlength, hinvokes⟩ := ih hran
    refine ⟨hwalk, hclosed, marks ++ .ran :: rest, by simp [hrest, hlog], ?_⟩
    generalize b.active = was at hstep
    cases hstep <;> simp [List.filter_cons, Mark.opens, Mark.invokes, hlength, hinvokes]

/-- Whole brackets in a row: entered, entered again any number of times, and left. -/
def rounds : Language Mark := ({[.entered]} * {[.continued]}∗ * {[.left]})∗

theorem Step.exists_close (mode : Mode) :
    ∃ marks, Step mode true marks false ∧ marks.filter Mark.turns = [.left] := by
  cases mode with
  | once => exact ⟨_, .ends rfl, rfl⟩
  | repeatWhile => exact ⟨_, .stops rfl, rfl⟩

/-- A run that has an end returns it, unless its word cannot count the bodies. -/
theorem Trace.run_eq {b b' : Bracket σ} {found : List σ} (h : Trace mode hooks body b found b') :
    run mode hooks body b =
      if found.length < UInt32.size then .ok ⟨b', found⟩ else .error .additionOverflow := by
  split
  · exact run_eq_ok_iff.mpr ⟨h, ‹_›⟩
  · rename_i hfull
    have hnone : ∀ fuel, fuel ≤ found.length →
        Bracket.loop mode hooks body fuel b = none := by
      clear hfull
      induction h with
      | declined =>
        intro fuel hfuel
        rw [Nat.le_zero.mp hfuel]
        rfl
      | ran hq hbody _ ih =>
        intro fuel hfuel
        cases fuel with
        | zero => rfl
        | succ fuel =>
          have hrest := ih fuel (Nat.le_of_succ_le_succ hfuel)
          simp only [Bracket.loop, hq, hbody, hrest, Option.map]
    rw [run, hnone _ (Nat.le_of_not_lt hfull)]
    rfl

/-- Hooks that always return. -/
structure Hooks.Returns (hooks : Hooks σ) : Prop where
  wantsEntry : ∀ s, ∃ x, hooks.wantsEntry s = .ok x
  enter : ∀ s, ∃ s', hooks.enter s = .ok s'
  wantsMore : ∀ s, ∃ x, hooks.wantsMore s = .ok x
  again : ∀ s, ∃ s', hooks.again s = .ok s'
  leave : ∀ s, ∃ s', hooks.leave s = .ok s'

theorem Hooks.Returns.query (h : hooks.Returns) (b : Bracket σ) :
    ∃ x, Bracket.query mode hooks b = .ok x := by
  have hgoesOn : ∀ s, ∃ x, goesOn mode hooks s = .ok x := fun s => by
    cases mode with
    | once => exact ⟨_, rfl⟩
    | repeatWhile => exact h.wantsMore s
  cases hactive : b.active with
  | false =>
    obtain ⟨⟨wanted, s⟩, hwanted⟩ := h.wantsEntry b.state
    obtain ⟨s', henter⟩ := h.enter s
    cases wanted <;> simp [query_of_inactive hactive, hwanted, henter]
  | true =>
    obtain ⟨⟨more, s⟩, hmore⟩ := hgoesOn b.state
    obtain ⟨s', hagain⟩ := h.again s
    obtain ⟨s'', hleave⟩ := h.leave s
    cases more <;> simp [query_of_active hactive, hmore, hagain, hleave]

/-- What a bracket promises of what it has called. -/
structure Orderly (mode : Mode) (b : Bracket (σ × List Mark)) : Prop where
  /-- The turning points are the beginning of whole brackets in a row. -/
  order : ∃ rest, b.context.filter Mark.turns ++ rest ∈ rounds
  /-- The bracket is open while the last entrance has not been left. -/
  active_iff : b.active = true ↔ (b.context.filter Mark.bounds).getLast? = some .entered
  /-- In mode `once` a driver is not asked for more and does not go on. -/
  once : mode = .once → (∀ more, .askedMore more ∉ b.context) ∧ .continued ∉ b.context

/-- A driver that counts down. -/
def countdown : Hooks Nat where
  wantsEntry s := .ok (0 < s, s)
  enter s := .ok (s - 1)
  wantsMore s := .ok (0 < s, s)
  again s := .ok (s - 1)
  leave s := .ok s

end Bracket

end Metronome
