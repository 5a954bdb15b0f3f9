import Metronome.Proofs.Rotation.Burst
import Metronome.Proofs.Rotation.Drivers
import Metronome.Proofs.Server
import Metronome.Proofs.Session

/-!
# Rotated sessions

A rotation of all ticks that a session starts with and is given leads to the rotated session: the
log, the time record and what the drivers keep are the same but for the rotation, and so are the
replies and what each body found (`Session.run_rotated`). There is no tick at which the circle
begins.

The one driver that is not blind to it is a server that counts from no tick: it would start at tick
zero. Its frames are therefore run from a valid tick.
-/

namespace Metronome

variable {n : UInt32} {τ φ H : Type}

namespace Session

variable [Seconds τ] [Fraction φ] [Clock τ φ] [Host H τ]

/-- Every frame of the server is run from a valid tick. -/
def ServesFromTick (s : Session τ φ H) : List (Op τ φ H) → Prop
  | [] => True
  | op :: ops =>
    (∀ body, op = .serve body → s.world.time.serverTick.isValid = true) ∧
      ∀ reply s', s.act op = .ok (reply, s') → s'.ServesFromTick ops

/-! ## Rotation -/

/-- The second operation is the first one, with the ticks that it brings rotated. Bodies do in a
rotated world, or scene, what they do in the world. -/
inductive Op.Rotated (n : UInt32) : Op τ φ H → Op τ φ H → Prop
  | beginFrame (delta : τ) : Rotated n (.beginFrame delta) (.beginFrame delta)
  | endFrame : Rotated n .endFrame .endFrame
  | configure (config : Config τ φ) : Rotated n (.configure config) (.configure config)
  | setInGame (inGame : Bool) : Rotated n (.setInGame inGame) (.setInGame inGame)
  | confirm {c c' : Confirmed φ} (hc : c.Rotated n c') : Rotated n (.confirm c) (.confirm c')
  | spawn (id : EntityId) : Rotated n (.spawn id) (.spawn id)
  | despawn (id : EntityId) : Rotated n (.despawn id) (.despawn id)
  | applySnapshot (id : EntityId) {t t' : Tick} (ht : t.Rotated n t') :
      Rotated n (.applySnapshot id t) (.applySnapshot id t')
  | recordApplied {t t' : Tick} (ht : t.Rotated n t') :
      Rotated n (.recordApplied t) (.recordApplied t')
  | recordInput {t t' : Tick} (ht : t.Rotated n t') : Rotated n (.recordInput t) (.recordInput t')
  | serve {body body' : World τ φ H → Except Fault (World τ φ H)}
      (hbody : ∀ w w', w.RotatedFrom n w' → Alike n (World.RotatedFrom n) (body w) (body' w')) :
      Rotated n (.serve body) (.serve body')
  | predict {body body' : Scene τ φ H → Except Fault (Scene τ φ H)}
      (hbody : ∀ c c', c.Rotated n c' → Alike n (Scene.Rotated n) (body c) (body' c')) :
      Rotated n (.predict body) (.predict body')
  | present {body body' : World τ φ H → Except Fault (World τ φ H)}
      (hbody : ∀ w w', w.Rotated n w' → Alike n (World.Rotated n) (body w) (body' w')) :
      Rotated n (.present body) (.present body')

/-- The second reply is the first one; what the bodies found is rotated. -/
inductive Reply.Rotated (n : UInt32) : Reply τ φ H → Reply τ φ H → Prop
  | done : Rotated n .done .done
  | refused (reason : Ghosts.Error) : Rotated n (.refused reason) (.refused reason)
  | ran {found found' : List (World τ φ H)} (hfound : List.Forall₂ (World.Rotated n) found found') :
      Rotated n (.ran found) (.ran found')
  | predicted {found found' : List (Scene τ φ H)}
      (hfound : List.Forall₂ (Scene.Rotated n) found found') :
      Rotated n (.predicted found) (.predicted found')

/-- The second session is the first one, with all its ticks rotated. The server holds none. -/
inductive Rotated (n : UInt32) (s : Session τ φ H) : Session τ φ H → Prop
  /-- There is nothing else. -/
  | intro {world : World τ φ H} {ghosts : Ghosts} {prediction : Bracket (Prediction τ φ)}
      {presentation : Bracket (Presentation τ φ)} (hworld : s.world.Rotated n world)
      (hghosts : s.ghosts.Rotated n ghosts)
      (hprediction : Bracket.Related (Prediction.Rotated n) s.prediction prediction)
      (hpresentation : Bracket.Related (Presentation.Rotated n) s.presentation presentation) :
      Rotated n s { s with world, ghosts, prediction, presentation }

/-- A reply and the session after it, rotated together. -/
def Aligned (n : UInt32) (x x' : Reply τ φ H × Session τ φ H) : Prop :=
  x.1.Rotated n x'.1 ∧ x.2.Rotated n x'.2

omit [Clock τ φ] [Host H τ] in
/-- New sessions at rotated ticks are rotated. -/
theorem rotated_start (config : Config τ φ) (host : H) {t t' : Tick} (h : t.Rotated n t') :
    (start config host t).Rotated n (start config host t') := by
  refine .intro (.intro (.intro h .invalid) Confirmed.rotated_invalid .nil) Ghosts.rotated_empty
    ⟨rfl, ?_⟩ ⟨rfl, ?_⟩
  · exact .intro History.rotated_empty .invalid .invalid .nil Confirmed.rotated_invalid .invalid
  · exact .intro Confirmed.rotated_invalid (.intro .invalid)

variable {s s' : Session τ φ H}

/-- Where the server does not run, no tick is asked for. -/
theorem servesFromTick_of_forall {ops : List (Op τ φ H)} (h : ∀ body, .serve body ∉ ops) :
    s.ServesFromTick ops := by
  induction ops generalizing s with
  | nil => trivial
  | cons op ops ih =>
    refine ⟨fun body heq => ?_, fun _ _ _ => ih fun body hmem => ?_⟩
    · exact absurd (heq ▸ List.mem_cons_self) (h body)
    · exact h body (List.mem_cons_of_mem op hmem)

section Parts

omit [Seconds τ] [Fraction φ] [Clock τ φ] [Host H τ]

namespace Rotated

theorem world (hs : s.Rotated n s') : s.world.Rotated n s'.world := by
  obtain ⟨hworld, -, -, -⟩ := hs
  exact hworld

theorem ghosts (hs : s.Rotated n s') : s.ghosts.Rotated n s'.ghosts := by
  obtain ⟨-, hghosts, -, -⟩ := hs
  exact hghosts

theorem history (hs : s.Rotated n s') :
    s.prediction.state.history.Rotated n s'.prediction.state.history := by
  obtain ⟨-, -, hprediction, -⟩ := hs
  exact hprediction.state.history

theorem withWorld (hs : s.Rotated n s') {w w' : World τ φ H} (hw : w.Rotated n w') :
    Rotated n { s with world := w } { s' with world := w' } := by
  obtain ⟨-, hghosts, hprediction, hpresentation⟩ := hs
  exact .intro hw hghosts hprediction hpresentation

theorem withGhosts (hs : s.Rotated n s') {g g' : Ghosts} (hg : g.Rotated n g') :
    Rotated n { s with ghosts := g } { s' with ghosts := g' } := by
  obtain ⟨hworld, -, hprediction, hpresentation⟩ := hs
  exact .intro hworld hg hprediction hpresentation

theorem withHistory (hs : s.Rotated n s') {history history' : History}
    (hhistory : history.Rotated n history') :
    (s.withHistory history).Rotated n (s'.withHistory history') := by
  obtain ⟨hworld, hghosts, ⟨hactive, hstate⟩, hpresentation⟩ := hs
  exact .intro hworld hghosts ⟨hactive, hstate.withKept hhistory hstate.lastFull⟩ hpresentation

end Rotated

end Parts

/-- What is done to a rotated session gives the rotated reply and leaves it rotated. -/
theorem act_rotated (hs : s.Rotated n s') {op op' : Op τ φ H} (hop : op.Rotated n op')
    (hserve : ∀ body, op = .serve body → s.world.time.serverTick.isValid = true) :
    Alike n (Aligned n) (s.act op) (s'.act op') := by
  cases hop with
  | beginFrame delta => exact .ok ⟨.done, hs.withWorld (hs.world.beginFrame delta)⟩
  | endFrame => exact hs.world.endFrame.bind fun _ _ hended => .ok ⟨.done, hs.withWorld hended⟩
  | configure config => exact .ok ⟨.done, hs.withWorld (hs.world.configure config)⟩
  | setInGame inGame => exact .ok ⟨.done, hs.withWorld (hs.world.setInGame inGame)⟩
  | confirm hc => exact .ok ⟨.done, hs.withWorld (hs.world.confirm hc)⟩
  | spawn id => exact .ok ⟨.done, hs.withGhosts (hs.ghosts.spawn id)⟩
  | despawn id => exact .ok ⟨.done, hs.withGhosts (hs.ghosts.despawn id)⟩
  | applySnapshot id ht =>
    unfold act
    dsimp only
    rcases hs.ghosts.applySnapshot ht hs.history id with
      ⟨reason, heq, heq'⟩ | ⟨r, r', heq, heq', hr⟩
    · rw [heq, heq']
      exact .ok ⟨.refused reason, hs⟩
    · rw [heq, heq']
      exact .ok ⟨.done, (hs.withHistory hr.2).withGhosts hr.1⟩
  | recordApplied ht => exact .ok ⟨.done, hs.withHistory (hs.history.recordApplied ht)⟩
  | recordInput ht => exact .ok ⟨.done, hs.withHistory (hs.history.recordInput ht)⟩
  | serve hbody =>
    obtain ⟨hworld, hghosts, hprediction, hpresentation⟩ := hs
    refine (Server.run_alike hbody ⟨hworld, hserve _ rfl⟩ s.server).bind ?_
    rintro ⟨⟨active, state⟩, w, found⟩ ⟨_, w', found'⟩ ⟨⟨rfl, rfl⟩, hw, hfound⟩
    exact .ok ⟨.ran (hfound.imp fun _ _ h => h.rotated),
      .intro hw.rotated hghosts hprediction hpresentation⟩
  | predict hbody =>
    obtain ⟨hworld, hghosts, hprediction, hpresentation⟩ := hs
    refine (Prediction.run_alike hbody hprediction (.intro hworld hghosts)).bind fun t t' ht => ?_
    exact .ok ⟨.predicted ht.found,
      .intro ht.context.world ht.context.ghosts ht.driver hpresentation⟩
  | present hbody =>
    obtain ⟨hworld, hghosts, hprediction, hpresentation⟩ := hs
    refine (Presentation.run_alike hbody hpresentation hworld).bind fun t t' ht => ?_
    exact .ok ⟨.ran ht.found, .intro ht.context hghosts hprediction ht.driver⟩

/-- A rotation of everything that a session starts with and is given leads to the rotated session,
with the rotated replies, or to the rotated fault. -/
theorem run_rotated (hs : s.Rotated n s') {ops ops' : List (Op τ φ H)}
    (hops : List.Forall₂ (Op.Rotated n) ops ops') (hserves : s.ServesFromTick ops) :
    Alike n (fun x x' => List.Forall₂ (Reply.Rotated n) x.1 x'.1 ∧ x.2.Rotated n x'.2)
      (s.run ops) (s'.run ops') := by
  induction hops generalizing s s' with
  | nil => exact .ok ⟨.nil, hs⟩
  | cons hop _ ih =>
    obtain ⟨hserve, hrest⟩ := hserves
    refine (act_rotated hs hop hserve).bind_of_ok ?_
    rintro ⟨reply, s₁⟩ ⟨reply', s₁'⟩ hact ⟨hreply, hs₁⟩
    refine (ih hs₁ (hrest reply s₁ hact)).bind ?_
    rintro ⟨replies, s₂⟩ ⟨replies', s₂'⟩ ⟨hreplies, hs₂⟩
    exact .ok ⟨.cons hreply hreplies, hs₂⟩

/-- A frame of a session: the server runs, a tick is confirmed, state of an earlier tick and input
arrive, and prediction catches up. -/
def frame (confirmed applied input : Tick) : List (Op Rat Rat (TallyHost Rat)) :=
  [.beginFrame (1 / 10), .serve .ok, .confirm (.whole confirmed), .spawn (EntityId.handedOut 0),
    .applySnapshot (EntityId.handedOut 0) applied, .recordInput input, .predict .ok, .present .ok,
    .endFrame]

theorem frame_rotated {c c' a a' i i' : Tick} (hc : c.Rotated n c') (ha : a.Rotated n a')
    (hi : i.Rotated n i') : List.Forall₂ (Op.Rotated n) (frame c a i) (frame c' a' i') :=
  .cons (.beginFrame _) <| .cons (.serve fun _ _ h => .ok h) <|
    .cons (.confirm (Confirmed.rotated_whole hc)) <| .cons (.spawn _) <|
    .cons (.applySnapshot _ ha) <| .cons (.recordInput hi) <| .cons (.predict fun _ _ h => .ok h) <|
    .cons (.present fun _ _ h => .ok h) <| .cons .endFrame .nil

/-- Ten ticks on, a frame near the end of the circle goes past it. -/
theorem run_rotated_client : ∃ x x',
    (start Config.sixty TallyHost.empty (Tick.ofIndex 2147483635)).run
      (frame (Tick.ofIndex 2147483645) (Tick.ofIndex 2147483641) (Tick.ofIndex 2147483643)) =
        .ok x ∧
    (start Config.sixty TallyHost.empty (Tick.ofIndex 2147483645)).run
      (frame (Tick.ofIndex 7) (Tick.ofIndex 3) (Tick.ofIndex 5)) = .ok x' ∧
    x.1.map Reply.count = [0, 4, 0, 0, 0, 0, 4, 1, 0] ∧
    List.Forall₂ (Reply.Rotated 10) x.1 x'.1 ∧ x.2.Rotated 10 x'.2 := by
  have htick : ∀ i j, Tick.ofIndex j = (Tick.ofIndex i).shift 10 →
      (Tick.ofIndex i).Rotated 10 (Tick.ofIndex j) :=
    fun i _ h => Tick.Moved.rotated ⟨Tick.OnCircle.ofIndex i, h⟩
  let calls := frame (Tick.ofIndex 2147483645) (Tick.ofIndex 2147483641) (Tick.ofIndex 2147483643)
  let s₁ := (start Config.sixty TallyHost.empty (Tick.ofIndex 2147483635)).reached (calls.take 6)
  have hpoints : s₁.prediction.state.ListsPoints s₁.scene (Tick.ofIndex 2147483641)
      [Tick.ofIndex 2147483641, Tick.ofIndex 2147483642, Tick.ofIndex 2147483645] := by
    decide +kernel
  have hentry := hpoints.goesBy (by decide +kernel) (by decide +kernel) (by decide +kernel)
  have hcounts : ((start Config.sixty TallyHost.empty (Tick.ofIndex 2147483635)).run
      calls).toOption.map (fun x => x.1.map Reply.count) =
      some [0, 4, 0, 0, 0, 0, 4, 1, 0] := by
    rw [show calls = calls.take 6 ++ .predict .ok :: [.present .ok, .endFrame] from rfl,
      run_burst hentry]
    decide +kernel
  have hserves : (start Config.sixty TallyHost.empty (Tick.ofIndex 2147483635)).ServesFromTick
      (frame (Tick.ofIndex 2147483645) (Tick.ofIndex 2147483641) (Tick.ofIndex 2147483643)) := by
    refine ⟨fun _ h => ?_, fun _ s₁ h₁ => ⟨fun _ _ => ?_, fun _ s₂ _ => ?_⟩⟩
    · cases h
    · cases h₁
      decide
    · exact servesFromTick_of_forall (by simp)
  have halike := run_rotated (rotated_start Config.sixty TallyHost.empty
    (htick 2147483635 2147483645 (by decide)))
    (frame_rotated (htick 2147483645 7 (by decide)) (htick 2147483641 3 (by decide))
      (htick 2147483643 5 (by decide))) hserves
  revert hcounts halike
  generalize (start Config.sixty TallyHost.empty (Tick.ofIndex 2147483635)).run _ = r
  generalize (start Config.sixty TallyHost.empty (Tick.ofIndex 2147483645)).run _ = r'
  intro hcounts halike
  cases halike with
  | @ok x x' h => exact ⟨x, x', rfl, rfl, Option.some.inj hcounts, h.1, h.2⟩
  | error h => cases hcounts

end Session

end Metronome
