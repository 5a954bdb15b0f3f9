import Metronome.Bracket
import Metronome.Proofs.Rotation.Tick
import Metronome.World

/-!
# Rotated worlds

The ticks of a world are those of its time record, its confirmed tick and those in its log. A
rotated world has them rotated, and everything else as it was. What a world does to itself it does
to a rotated one.

Two brackets run alike if their hooks and their bodies keep a relation of their states
(`Bracket.run_alike`).
-/

namespace Metronome

variable {n : UInt32} {τ φ H : Type}

/-- The second record is the first one, with its ticks rotated. -/
inductive TimeRecord.Rotated (n : UInt32) (t : TimeRecord τ φ) : TimeRecord τ φ → Prop
  /-- Everything else is kept. -/
  | intro {serverTick shownTick : Tick} (hserver : t.serverTick.Rotated n serverTick)
      (hshown : t.shownTick.Rotated n shownTick) : Rotated n t { t with serverTick, shownTick }

/-- The second invocation is the first one, with its tick rotated. -/
inductive Invocation.Rotated (n : UInt32) (i : Invocation τ φ) : Invocation τ φ → Prop
  /-- Everything else is kept. -/
  | intro {tick : Tick} (htick : i.tick.Rotated n tick) : Rotated n i { i with tick }

/-- The second event is the first one, with its tick rotated. -/
inductive Event.Rotated (n : UInt32) : Event τ φ → Event τ φ → Prop
  /-- A burst begins at the rotated tick. -/
  | entered (driver : Driver) {tick tick' : Tick} (htick : tick.Rotated n tick') :
      Rotated n (.entered driver tick) (.entered driver tick')
  /-- The rotated invocation begins. -/
  | invoked {i i' : Invocation τ φ} (hinvocation : i.Rotated n i') :
      Rotated n (.invoked i) (.invoked i')
  /-- The same burst ends. -/
  | exited (driver : Driver) (invocations : UInt32) :
      Rotated n (.exited driver invocations) (.exited driver invocations)
  /-- The same frame is skipped, for the same reason. -/
  | skipped (driver : Driver) (reason : SkipReason) :
      Rotated n (.skipped driver reason) (.skipped driver reason)

/-- The second world is the first one, with the ticks of the time record, the confirmed tick and the
log rotated. -/
inductive World.Rotated (n : UInt32) (w : World τ φ H) : World τ φ H → Prop
  /-- Everything else is kept. -/
  | intro {time : TimeRecord τ φ} {confirmed : Confirmed φ} {past : List (Event τ φ)}
      (htime : w.time.Rotated n time) (hconfirmed : w.confirmed.Rotated n confirmed)
      (hpast : List.Forall₂ (Event.Rotated n) w.past past) :
      Rotated n w { w with time, confirmed, past }

namespace TimeRecord.Rotated

variable {t t' : TimeRecord τ φ}

theorem serverTick (h : t.Rotated n t') : t.serverTick.Rotated n t'.serverTick := by
  obtain ⟨hserver, -⟩ := h
  exact hserver

end TimeRecord.Rotated

namespace World.Rotated

variable {w w' : World τ φ H}

theorem time (h : w.Rotated n w') : w.time.Rotated n w'.time := by
  obtain ⟨htime, -, -⟩ := h
  exact htime

theorem confirmed (h : w.Rotated n w') : w.confirmed.Rotated n w'.confirmed := by
  obtain ⟨-, hconfirmed, -⟩ := h
  exact hconfirmed

theorem config_eq (h : w.Rotated n w') : w'.config = w.config := by
  obtain ⟨-, -, -⟩ := h
  rfl

theorem record (h : w.Rotated n w') {e e' : Event τ φ} (he : e.Rotated n e') :
    (w.record e).Rotated n (w'.record e') := by
  obtain ⟨htime, hconfirmed, hpast⟩ := h
  exact .intro htime hconfirmed (.cons he hpast)

theorem confirm (h : w.Rotated n w') {c c' : Confirmed φ} (hc : c.Rotated n c') :
    Rotated n { w with confirmed := c } { w' with confirmed := c' } := by
  obtain ⟨htime, -, hpast⟩ := h
  exact .intro htime hc hpast

theorem configure (h : w.Rotated n w') (config : Config τ φ) :
    Rotated n { w with config } { w' with config } := by
  obtain ⟨htime, hconfirmed, hpast⟩ := h
  exact .intro htime hconfirmed hpast

theorem setInGame (h : w.Rotated n w') (inGame : Bool) :
    Rotated n { w with inGame } { w' with inGame } := by
  obtain ⟨htime, hconfirmed, hpast⟩ := h
  exact .intro htime hconfirmed hpast

theorem beginFrame [Seconds τ] (h : w.Rotated n w') (delta : τ) :
    (w.beginFrame delta).Rotated n (w'.beginFrame delta) := by
  obtain ⟨htime, hconfirmed, hpast⟩ := h
  exact .intro htime hconfirmed hpast

theorem endFrame (h : w.Rotated n w') : Alike n (Rotated n) w.endFrame w'.endFrame := by
  obtain ⟨htime, hconfirmed, hpast⟩ := h
  unfold World.endFrame
  dsimp only
  cases w.scopes.balanced with
  | ok p => exact .ok (.intro htime hconfirmed hpast)
  | error e => cases e <;> exact .fails _

variable [Host H τ]

theorem exitScope (h : w.Rotated n w') :
    Alike n (fun w₁ w₁' => w₁.Rotated n w₁' ∧ w₁.time = w.time) w.exitScope w'.exitScope := by
  obtain ⟨htime, hconfirmed, hpast⟩ := h
  unfold World.exitScope
  dsimp only
  cases w.scopes.exit w.host with
  | ok p => exact .ok ⟨.intro htime hconfirmed hpast, rfl⟩
  | error e => cases e <;> exact .fails _

end World.Rotated

/-! ## Brackets that run alike -/

namespace Bracket

variable {σ σ' κ κ' : Type}

/-- Two brackets at the same point of their dialogue, with related states. -/
structure Related (R : σ → σ' → Prop) (b : Bracket σ) (b' : Bracket σ') : Prop where
  active : b'.active = b.active
  state : R b.state b'.state

/-- An answer and what comes with it: the answers are the same, the rest is related. -/
def Answers (R : σ → σ' → Prop) (x : Bool × σ) (x' : Bool × σ') : Prop :=
  x'.1 = x.1 ∧ R x.2 x'.2

/-- Hooks that keep a relation of their states, and answer the same. -/
structure Hooks.Keep (n : UInt32) (R : σ → σ' → Prop) (hooks : Hooks σ) (hooks' : Hooks σ') :
    Prop where
  wantsEntry : ∀ s s', R s s' → Alike n (Answers R) (hooks.wantsEntry s) (hooks'.wantsEntry s')
  enter : ∀ s s', R s s' → Alike n R (hooks.enter s) (hooks'.enter s')
  wantsMore : ∀ s s', R s s' → Alike n (Answers R) (hooks.wantsMore s) (hooks'.wantsMore s')
  again : ∀ s s', R s s' → Alike n R (hooks.again s) (hooks'.again s')
  leave : ∀ s s', R s s' → Alike n R (hooks.leave s) (hooks'.leave s')

variable {R : σ → σ' → Prop} {mode : Mode} {hooks : Hooks σ} {hooks' : Hooks σ'}

theorem query_alike (hh : hooks.Keep n R hooks') {b : Bracket σ} {b' : Bracket σ'}
    (h : Related R b b') :
    Alike n (Answers (Related R)) (query mode hooks b) (query mode hooks' b') := by
  unfold query
  rw [h.active]
  refine .ite Iff.rfl (fun _ => ?_) fun _ => ?_
  · have hmore : Alike n (Answers R) (goesOn mode hooks b.state) (goesOn mode hooks' b'.state) := by
      cases mode with
      | once => exact .ok ⟨rfl, h.state⟩
      | repeatWhile => exact hh.wantsMore _ _ h.state
    refine hmore.bind ?_
    rintro ⟨more, s⟩ ⟨_, s'⟩ ⟨rfl, hs⟩
    refine .ite Iff.rfl (fun _ => ?_) fun _ => ?_
    · exact (hh.again _ _ hs).bind fun _ _ hs => .ok ⟨rfl, rfl, hs⟩
    · exact (hh.leave _ _ hs).bind fun _ _ hs => .ok ⟨rfl, rfl, hs⟩
  · refine (hh.wantsEntry _ _ h.state).bind ?_
    rintro ⟨wanted, s⟩ ⟨_, s'⟩ ⟨rfl, hs⟩
    refine .ite Iff.rfl (fun _ => ?_) fun _ => .ok ⟨rfl, rfl, hs⟩
    exact (hh.enter _ _ hs).bind fun _ _ hs => .ok ⟨rfl, rfl, hs⟩

/-- Two runs that end in related brackets, and whose bodies found related states. -/
structure Run.Related (R : σ → σ' → Prop) (r : Run σ) (r' : Run σ') : Prop where
  bracket : Bracket.Related R r.bracket r'.bracket
  found : List.Forall₂ R r.found r'.found

variable {body : σ → Except Fault σ} {body' : σ' → Except Fault σ'}

/-- Loops are alike: both decline, or fail, after the same number of bodies, or neither does. -/
theorem loop_alike (hh : hooks.Keep n R hooks')
    (hbody : ∀ s s', R s s' → Alike n R (body s) (body' s')) (fuel : Nat) {b : Bracket σ}
    {b' : Bracket σ'} (h : Related R b b') :
    Option.Rel (Alike n (Run.Related R)) (loop mode hooks body fuel b)
      (loop mode hooks' body' fuel b') := by
  induction fuel generalizing b b' with
  | zero => exact .none
  | succ fuel ih =>
    have hquery : Alike n (Answers (Related R)) (query mode hooks b) (query mode hooks' b') :=
      query_alike hh h
    unfold loop
    generalize query mode hooks b = answer at hquery ⊢
    generalize query mode hooks' b' = answer' at hquery ⊢
    cases hquery with
    | error hfault => exact .some (.error hfault)
    | @ok x x' hx =>
      obtain ⟨_, b⟩ := x
      obtain ⟨runs, b'⟩ := x'
      obtain ⟨rfl, hb⟩ := hx
      cases runs with
      | false => exact .some (.ok ⟨hb, .nil⟩)
      | true =>
        have hran := hbody _ _ hb.state
        dsimp only at hran ⊢
        generalize body b.state = ran at hran ⊢
        generalize body' b'.state = ran' at hran ⊢
        cases hran with
        | error hfault => exact .some (.error hfault)
        | @ok s s' hs =>
          have hnext : Related R ⟨b.active, s⟩ ⟨b'.active, s'⟩ := ⟨hb.active, hs⟩
          have hrest := ih hnext
          dsimp only at hrest ⊢
          generalize loop mode hooks body fuel ⟨b.active, s⟩ = rest at hrest ⊢
          generalize loop mode hooks' body' fuel ⟨b'.active, s'⟩ = rest' at hrest ⊢
          cases hrest with
          | none => exact .none
          | some hrest =>
            cases hrest with
            | error hfault => exact .some (.error hfault)
            | ok hr => exact .some (.ok ⟨hr.bracket, .cons hb.state hr.found⟩)

/-- Brackets run alike if their hooks and bodies do. -/
theorem run_alike (hh : hooks.Keep n R hooks')
    (hbody : ∀ s s', R s s' → Alike n R (body s) (body' s')) {b : Bracket σ} {b' : Bracket σ'}
    (h : Related R b b') :
    Alike n (Run.Related R) (run mode hooks body b) (run mode hooks' body' b') := by
  have hloop : Option.Rel (Alike n (Run.Related R)) (loop mode hooks body UInt32.size b)
      (loop mode hooks' body' UInt32.size b') := loop_alike hh hbody UInt32.size h
  unfold run
  generalize loop mode hooks body UInt32.size b = r at hloop ⊢
  generalize loop mode hooks' body' UInt32.size b' = r' at hloop ⊢
  cases hloop with
  | none => exact .fails _
  | some hrun => exact hrun

/-! ## Drivers that run alike -/

/-- Two finished frames of drivers, with related drivers and contexts. -/
structure Turn.Related (R : σ → σ' → Prop) (S : κ → κ' → Prop) (t : Turn σ κ) (t' : Turn σ' κ') :
    Prop where
  driver : Bracket.Related R t.driver t'.driver
  context : S t.context t'.context
  found : List.Forall₂ S t.found t'.found

/-- Drivers run alike in related contexts if their hooks and bodies do. -/
theorem runIn_alike {S : κ → κ' → Prop} {hooks : Hooks (σ × κ)} {hooks' : Hooks (σ' × κ')}
    (hh : hooks.Keep n (fun x x' => R x.1 x'.1 ∧ S x.2 x'.2) hooks') {body : κ → Except Fault κ}
    {body' : κ' → Except Fault κ'} (hbody : ∀ c c', S c c' → Alike n S (body c) (body' c'))
    {b : Bracket σ} {b' : Bracket σ'} (hb : Related R b b') {c : κ} {c' : κ'} (hc : S c c') :
    Alike n (Turn.Related R S) (runIn mode hooks body b c) (runIn mode hooks' body' b' c') := by
  refine (run_alike hh ?_ ⟨hb.active, hb.state, hc⟩).bind fun r r' hr => .ok ?_
  · rintro ⟨s, c⟩ ⟨s', c'⟩ ⟨hs, hc⟩
    exact (hbody c c' hc).bind fun _ _ hc => .ok ⟨hs, hc⟩
  · exact ⟨⟨hr.bracket.active, hr.bracket.state.1⟩, hr.bracket.state.2,
      List.rel_map (fun _ _ h => h.2) hr.found⟩

end Bracket

end Metronome
