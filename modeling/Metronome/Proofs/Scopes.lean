import Metronome.Arena
import Metronome.Proofs.Session

/-!
# Scopes are balanced

The scope of an invocation is opened by one hook of its driver and closed by another, so that the
two belong together is a matter of the whole frame. A body that neither opens nor closes scopes
finds one scope more than there were before the call, with the window of its invocation innermost;
after the call the scopes, the windows and the arena are what they were (`keeps_scopes_balanced`).

This is shown once for all hosts that keep windows and arenas as a stack (`StackHost`): the host
that counts and the host with two arenas are such.
-/

namespace Metronome

variable {τ φ H : Type}

/-- What a host tells of its open scopes. -/
structure HostStack (τ : Type) where
  /-- The open windows, innermost first. -/
  windows : List (Window τ)
  /-- The current arena. -/
  current : ArenaId
  /-- How many windows were opened, less how many were closed. -/
  balance : Int

namespace HostStack

/-- A window more. -/
def push (s : HostStack τ) (window : Window τ) : HostStack τ :=
  { s with windows := window :: s.windows, balance := s.balance + 1 }

/-- A window less. -/
def pop (s : HostStack τ) : HostStack τ :=
  { s with windows := s.windows.tail, balance := s.balance - 1 }

/-- Another arena. -/
def withArena (s : HostStack τ) (arena : ArenaId) : HostStack τ :=
  { s with current := arena }

/-- A window that is taken back leaves nothing behind. -/
theorem pop_withArena_push (s : HostStack τ) (window : Window τ) (arena : ArenaId) :
    (((s.push window).withArena arena).withArena s.current).pop = s := by
  simp [push, pop, withArena]

end HostStack

/-- Hosts that keep windows and arenas as a stack. -/
class StackHost (H : Type) (τ : outParam Type) [Host H τ] where
  /-- What the host tells. -/
  stack : H → HostStack τ
  stack_push : ∀ (h : H) (window : Window τ),
    stack (Host.pushWindow h window) = (stack h).push window
  stack_pop : ∀ h : H, (stack h).windows ≠ [] → stack (Host.popWindow h) = (stack h).pop
  replaced : ∀ h : H, (Host.acquire h).1 = (stack h).current
  stack_acquire : ∀ h : H, ∃ fresh, stack (Host.acquire h).2 = (stack h).withArena fresh
  stack_release : ∀ (h : H) (arena : ArenaId),
    stack (Host.release h arena) = (stack h).withArena arena
  stack_complete : ∀ h : H, stack (Host.complete h) = stack h

instance : StackHost (TallyHost τ) τ where
  stack h := ⟨h.windows, h.current, h.pushed - h.popped⟩
  stack_push h window := by
    simp only [Host.pushWindow, HostStack.push, HostStack.mk.injEq, true_and]
    omega
  stack_pop h _ := by
    simp only [Host.popWindow, HostStack.pop, HostStack.mk.injEq, true_and]
    omega
  replaced _ := rfl
  stack_acquire h := ⟨⟨h.lastArena.id + 1⟩, rfl⟩
  stack_release _ _ := rfl
  stack_complete _ := rfl

instance : StackHost (ArenaHost τ) τ where
  stack h := ⟨h.windows, h.arenas.current, h.windows.length⟩
  stack_push h window := by
    simp [Host.pushWindow, HostStack.push]
  stack_pop h hopen := by
    have hpos : 0 < h.windows.length := List.length_pos_iff.mpr hopen
    simp only [Host.popWindow, HostStack.pop, HostStack.mk.injEq, true_and, List.length_tail]
    omega
  replaced _ := rfl
  stack_acquire h := ⟨h.arenas.side.flip.id, rfl⟩
  stack_release _ _ := rfl
  stack_complete _ := rfl

open StackHost

section Exit

variable [Host H τ] [StackHost H τ]

theorem ScopeStack.stack_enter (s : ScopeStack) (h : H) (window : Window τ) :
    ∃ fresh, (s.enter h window).1 = ⟨(stack h).current :: s.saved⟩ ∧
      stack (s.enter h window).2 = ((stack h).push window).withArena fresh := by
  obtain ⟨fresh, hfresh⟩ := stack_acquire (Host.pushWindow h window)
  have hreplaced := replaced (Host.pushWindow h window)
  rw [stack_push] at hfresh hreplaced
  exact ⟨fresh, congrArg (fun arena => ScopeStack.mk (arena :: s.saved)) hreplaced, hfresh⟩

/-- A scope that is left with nothing left open inside it gives back the stacks around it. -/
theorem ScopeStack.exit_of_enter {s s₁ : ScopeStack} {h h₁ : H} {window : Window τ}
    (hscopes : s₁ = (s.enter h window).1) (hstack : stack h₁ = stack (s.enter h window).2) :
    ∃ h₂, s₁.exit h₁ = .ok (s, h₂) ∧ stack h₂ = stack h := by
  obtain ⟨fresh, henter, hpushed⟩ := s.stack_enter h window
  rw [henter] at hscopes
  rw [hpushed] at hstack
  -- the work is waited for, the arena goes back, and then the window
  have hrelease : stack (Host.release (Host.complete h₁) (stack h).current) =
      (((stack h).push window).withArena fresh).withArena (stack h).current := by
    rw [stack_release, stack_complete, hstack]
  refine ⟨Host.popWindow (Host.release (Host.complete h₁) (stack h).current), hscopes ▸ rfl, ?_⟩
  rw [stack_pop _ (by rw [hrelease]; exact List.cons_ne_nil _ _), hrelease,
    HostStack.pop_withArena_push]

end Exit

namespace World

variable [Host H τ] [StackHost H τ]

/-- The open scopes of a world, and what its host tells of them. -/
def openScopes (w : World τ φ H) : ScopeStack × HostStack τ :=
  (w.scopes, stack w.host)

/-- A world with one scope more than another: that of the invocation that was logged last. -/
structure OpenedOver (w x : World τ φ H) : Prop where
  depth_eq : x.depth = w.depth + 1
  windows_eq : ∃ i, x.invocation? = some i ∧
    (stack x.host).windows = i.window :: (stack w.host).windows

theorem openedOver_during (w : World τ φ H) (t : TimeRecord τ φ) (i : Invocation τ φ) :
    w.OpenedOver (w.during t i) := by
  obtain ⟨fresh, -, hstack⟩ := w.scopes.stack_enter w.host i.window
  exact ⟨rfl, i, rfl, congrArg HostStack.windows hstack⟩

/-- A scope that is closed with nothing left open inside it leaves the scopes around it. -/
theorem openScopes_of_exit {w w₁ w₂ : World τ φ H} {t : TimeRecord τ φ} {i : Invocation τ φ}
    (hsame : w₁.openScopes = (w.during t i).openScopes) (hexit : w₁.exitScope = .ok w₂) :
    w₂.openScopes = w.openScopes := by
  obtain ⟨hscopes, hstack⟩ := Prod.mk.inj hsame
  obtain ⟨host, hhost, hrestored⟩ := ScopeStack.exit_of_enter hscopes hstack
  unfold exitScope at hexit
  rw [hhost] at hexit
  cases hexit
  exact Prod.ext rfl hrestored

variable {d : Driver} {runs : World τ φ H → World τ φ H → Prop} {w w' : World τ φ H}
  {found : List (World τ φ H)}

/-- Only the open scopes matter for what is opened over them. -/
theorem OpenedOver.congr {x : World τ φ H} (h : w.OpenedOver x)
    (hsame : w.openScopes = w'.openScopes) : w'.OpenedOver x := by
  obtain ⟨hscopes, hstack⟩ := Prod.mk.inj hsame
  obtain ⟨hdepth, i, hi, hwindows⟩ := h
  refine ⟨?_, i, hi, hstack ▸ hwindows⟩
  rw [hdepth, depth, depth, hscopes]

theorem Stretch.balanced (hkeeps : ∀ x y, runs x y → y.openScopes = x.openScopes)
    (h : Stretch d runs w found w') :
    (∀ x ∈ found, w.OpenedOver x) ∧ w'.openScopes = w.openScopes := by
  induction h with
  | nil => exact ⟨fun _ hx => absurd hx List.not_mem_nil, rfl⟩
  | @invoke w w₁ w₂ w' found i t _ _ _ ran closes _ ih =>
    obtain ⟨hfound, hend⟩ := ih
    have hclosed : w₂.openScopes = w.openScopes := openScopes_of_exit (hkeeps _ _ ran) closes
    have hrest : ∀ x ∈ found, w.OpenedOver x := fun x hx => (hfound x hx).congr hclosed
    exact ⟨List.forall_mem_cons.mpr ⟨w.openedOver_during t i, hrest⟩, hend.trans hclosed⟩

/-- A visit whose bodies neither open nor close scopes opens one scope for each of them, and leaves
none. -/
theorem Visit.balanced (hkeeps : ∀ x y, runs x y → y.openScopes = x.openScopes)
    (h : Visit d runs w found w') :
    (∀ x ∈ found, w.OpenedOver x) ∧ w'.openScopes = w.openScopes := by
  cases h with
  | skipped => exact ⟨fun _ hx => absurd hx List.not_mem_nil, rfl⟩
  | burst _ t t' tick n _ stretch =>
    obtain ⟨hfound, hend⟩ := stretch.balanced hkeeps
    exact ⟨fun x hx => (hfound x hx).congr rfl, hend⟩
  | single _ i t t' _ ran closes =>
    have hclosed := openScopes_of_exit (hkeeps _ _ ran) closes
    exact ⟨List.forall_mem_singleton.mpr (w.openedOver_during t i), hclosed⟩

end World

namespace Session

variable [Seconds τ] [Fraction φ] [Clock τ φ] [Host H τ] [StackHost H τ]

/-- The body of an operation neither opens nor closes scopes. -/
def Op.KeepsScopes (op : Op τ φ H) : Prop :=
  ∀ w w', op.Runs w w' → w'.openScopes = w.openScopes

/-- A call opens one scope for each body, and leaves the scopes as they were. -/
structure Call.Balanced (c : Call τ φ H) : Prop where
  opened : ∀ w ∈ c.reply.worlds, c.before.world.OpenedOver w
  restored : c.after.world.openScopes = c.before.world.openScopes

theorem Call.balanced {c : Call τ φ H} (hs : c.before.Idle)
    (hact : c.before.act c.op = .ok (c.reply, c.after)) (hkeeps : c.op.KeepsScopes) :
    c.Balanced := by
  cases hd : c.op.driver? with
  | none =>
    obtain ⟨hworlds, -, hhost, hscopes, -⟩ := rest_of_act hs hact hd
    refine ⟨fun w hw => ?_, ?_⟩
    · rw [hworlds] at hw
      cases hw
    · rw [World.openScopes, hhost, hscopes]
      rfl
  | some d =>
    obtain ⟨hopened, hrestored⟩ := (visit_of_act hs hact hd).1.balanced hkeeps
    exact ⟨hopened, hrestored⟩

/-- Every frame of every driver is neutral to scopes, however many are open already: in calls in a
row whose bodies neither open nor close scopes, each body finds one scope more than there were
before its call, with the window of its invocation innermost, and each call leaves the scopes, the
windows and the arena as they were. With no scope open to begin with a frame can end, and whatever
a session admits next returns. -/
theorem keeps_scopes_balanced [LawfulFraction φ] {s s' : Session τ φ H} {calls : List (Call τ φ H)}
    (hs : s.Idle) (h : Along s calls s') (hkeeps : ∀ c ∈ calls, c.op.KeepsScopes) :
    (∀ c ∈ calls, c.Balanced) ∧ s'.world.openScopes = s.world.openScopes ∧
      (s.world.depth = 0 → s'.world.endFrame = .ok s'.world) ∧
      ∀ op, s'.Admits op → ∃ reply s'', Along s (calls ++ [⟨s', op, reply, s''⟩]) s'' := by
  obtain ⟨hidle, hidle'⟩ := h.idle hs
  have hall : ∀ c ∈ calls, c.Balanced := fun c hc =>
    Call.balanced (hidle c hc).1 (hidle c hc).2 (hkeeps c hc)
  have hsame : s'.world.openScopes = s.world.openScopes :=
    h.same (fun s => s.world.openScopes) fun c hc => (hall c hc).restored
  refine ⟨hall, hsame, fun hdepth => ?_, fun op hop => ?_⟩
  · have hdepth' : s'.world.scopes.depth = 0 := (Prod.mk.inj hsame).1 ▸ hdepth
    unfold World.endFrame ScopeStack.balanced
    rw [if_pos hdepth']
  · obtain ⟨reply, s'', hact⟩ := exists_act hidle' hop
    exact ⟨reply, s'', h.snoc hact⟩

/-- A new session with two arenas, inside a scope of its host. -/
def nested : Session Rat Rat (ArenaHost Rat) where
  world := (World.start Config.sixty (ArenaHost.ofCapacity 16)).enterScope ⟨0, 0⟩
  ghosts := Ghosts.empty
  server := .idle Server.start
  prediction := .idle Prediction.initial
  presentation := .idle Presentation.start

/-- Inside a scope all drivers run, nine times together. -/
theorem keeps_scopes_balanced_nested : ∃ calls s', Along nested calls s' ∧
    calls.map (fun c => c.reply.count) = [0, 4, 0, 0, 0, 4, 1] ∧ (∀ c ∈ calls, c.Balanced) ∧
      s'.world.openScopes = nested.world.openScopes := by
  let s₁ := nested.reached ((everyDriver _).take 5)
  have hpoints : s₁.prediction.state.ListsPoints s₁.scene (Tick.ofIndex 5)
      [Tick.ofIndex 5, Tick.ofIndex 8] := by decide +kernel
  have hentry := hpoints.goesBy (by decide +kernel) (by decide +kernel) (by decide +kernel)
  have hrun : (nested.run (everyDriver _)).toOption.map (fun x => x.1.map Reply.count) =
      some [0, 4, 0, 0, 0, 4, 1] := by
    rw [show everyDriver _ = (everyDriver _).take 5 ++ .predict .ok :: [.present .ok] from rfl,
      run_burst hentry]
    decide +kernel
  obtain ⟨calls, s', halong, hops, hcounts⟩ := along_of_counts hrun
  have hkeeps : ∀ c ∈ calls, c.op.KeepsScopes := fun c hc w w' hruns => by
    rw [eq_of_runs_everyDriver (hops ▸ List.mem_map_of_mem hc) hruns]
  obtain ⟨hbalanced, hsame, -⟩ := keeps_scopes_balanced ⟨rfl, rfl, rfl⟩ halong hkeeps
  exact ⟨calls, s', halong, hcounts, hbalanced, hsame⟩

end Session

end Metronome
