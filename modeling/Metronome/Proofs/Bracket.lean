import Metronome.Bracket
import Metronome.Proofs.Outcome

/-!
# Runs of a bracket

`Bracket.run` queries with a counter that would overflow only after `2 ^ 32` bodies. `Trace` is the
run without the counter: each query that is answered `true` is followed by the body, and the first
one answered `false` ends it. A run that returns is a trace with fewer bodies than the counter
holds, and the other way round (`run_eq_ok_iff`).

The hooks are asked only once in a run whether to enter. So runs that begin with the same answer and
go on alike are the same (`run_congr`).
-/

namespace Metronome

namespace Bracket

variable {σ : Type} {mode : Mode} {hooks : Hooks σ} {body : σ → Except Fault σ}

/-- The run of a bracket, with what its bodies found and the bracket after it. -/
inductive Trace (mode : Mode) (hooks : Hooks σ) (body : σ → Except Fault σ) :
    Bracket σ → List σ → Bracket σ → Prop
  /-- The bracket declines. -/
  | declined {b b' : Bracket σ} (declines : query mode hooks b = .ok (false, b')) :
      Trace mode hooks body b [] b'
  /-- The body runs and the bracket is asked again. -/
  | ran {b b₁ b' : Bracket σ} {x : σ} {found : List σ} (runs : query mode hooks b = .ok (true, b₁))
      (ran : body b₁.state = .ok x) (rest : Trace mode hooks body ⟨b₁.active, x⟩ found b') :
      Trace mode hooks body b (b₁.state :: found) b'

theorem Trace.of_loop : ∀ {fuel : Nat} {b : Bracket σ} {r : Run σ},
    loop mode hooks body fuel b = some (.ok r) →
      Trace mode hooks body b r.found r.bracket ∧ r.found.length < fuel
  | 0, b, r, h => by simp [loop] at h
  | fuel + 1, b, r, h => by
    unfold loop at h
    split at h
    · simp at h
    · rename_i b₁ hq
      cases h
      exact ⟨.declined hq, Nat.succ_pos _⟩
    · rename_i b₁ hq
      split at h
      · simp at h
      · rename_i x hx
        obtain ⟨r₁, hl, hr⟩ := Option.map_eq_some_iff.mp h
        cases r₁ with
        | error e => simp [Except.map] at hr
        | ok r₁ =>
          obtain ⟨ht, hlen⟩ := Trace.of_loop hl
          cases hr
          exact ⟨.ran hq hx ht, Nat.succ_lt_succ hlen⟩

theorem Trace.loop {b b' : Bracket σ} {found : List σ} (h : Trace mode hooks body b found b') :
    ∀ {fuel : Nat}, found.length < fuel → loop mode hooks body fuel b = some (.ok ⟨b', found⟩) := by
  induction h with
  | declined hq =>
    intro fuel hf
    obtain ⟨n, rfl⟩ := Nat.exists_eq_succ_of_ne_zero (Nat.ne_of_gt hf)
    simp only [Bracket.loop, hq]
  | ran hq hx _ ih =>
    intro fuel hf
    obtain ⟨n, rfl⟩ := Nat.exists_eq_succ_of_ne_zero (Nat.ne_of_gt (Nat.zero_lt_of_lt hf))
    simp only [Bracket.loop, hq, hx, ih (Nat.lt_of_succ_lt_succ hf)]
    rfl

/-- A run returns exactly the traces that its counter can hold. -/
theorem run_eq_ok_iff {b : Bracket σ} {r : Run σ} :
    run mode hooks body b = .ok r ↔
      Trace mode hooks body b r.found r.bracket ∧ r.found.length < UInt32.size := by
  unfold run
  generalize UInt32.size = fuel
  constructor
  · intro h
    cases hl : Bracket.loop mode hooks body fuel b with
    | none => simp [hl] at h
    | some o =>
      rw [hl, Option.getD_some] at h
      subst h
      exact Trace.of_loop hl
  · rintro ⟨ht, hlen⟩
    rw [ht.loop hlen, Option.getD_some]

/-! ## Runs that begin alike -/

/-- A query that is answered `true` leaves the bracket open, any other one leaves it closed. -/
theorem active_of_query {b b' : Bracket σ} {runs : Bool}
    (h : query mode hooks b = .ok (runs, b')) : b'.active = runs := by
  cases hb : b.active with
  | false =>
    rw [query_of_inactive hb] at h
    obtain ⟨⟨_ | _, s⟩, -, h⟩ := bind_eq_ok_iff.mp h
    · cases h
      rfl
    · obtain ⟨s', -, h⟩ := bind_eq_ok_iff.mp h
      cases h
      rfl
  | true =>
    rw [query_of_active hb] at h
    obtain ⟨⟨_ | _, s⟩, -, h⟩ := bind_eq_ok_iff.mp h
    all_goals
      obtain ⟨s', -, h⟩ := bind_eq_ok_iff.mp h
      cases h
      rfl

section Alike

variable {hooks' : Hooks σ}
  (hopen : ∀ b : Bracket σ, b.active = true → query mode hooks b = query mode hooks' b)

include hopen

theorem loop_congr (fuel : Nat) {b b' : Bracket σ}
    (h : query mode hooks b = query mode hooks' b') :
    loop mode hooks body fuel b = loop mode hooks' body fuel b' := by
  induction fuel generalizing b b' with
  | zero => rfl
  | succ fuel ih =>
    rw [loop, loop, h]
    -- the bracket is open wherever it is asked again
    split
    · rfl
    · rfl
    · rename_i b₁ hq
      split
      · rfl
      · rename_i x hx
        have hactive : b₁.active = true := active_of_query hq
        rw [ih (hopen ⟨b₁.active, x⟩ hactive)]

/-- Runs that begin with the same answer and go on with the same hooks are the same. -/
theorem run_congr {b b' : Bracket σ} (h : query mode hooks b = query mode hooks' b') :
    run mode hooks body b = run mode hooks' body b' := by
  rw [run, run, loop_congr hopen _ h]

end Alike

/-- The same hooks, with the answer to whether to enter decided. -/
def Hooks.decided (hooks : Hooks σ) (entry : Except Fault (Bool × σ)) : Hooks σ :=
  { hooks with wantsEntry := fun _ => entry }

theorem query_decided_of_open (entry : Except Fault (Bool × σ)) (b : Bracket σ)
    (hb : b.active = true) : query mode (hooks.decided entry) b = query mode hooks b := by
  rw [query_of_active hb, query_of_active hb]
  rfl

theorem query_decided {entry : Except Fault (Bool × σ)} {b : Bracket σ}
    (h : hooks.wantsEntry b.state = entry) :
    query mode (hooks.decided entry) b = query mode hooks b := by
  cases hb : b.active with
  | false =>
    rw [query_of_inactive hb, query_of_inactive hb, h]
    rfl
  | true => exact query_decided_of_open entry b hb

/-! ## Runs that end -/

section Ends

variable {I : Nat → Bracket σ → Prop} {P : Fault → Prop}
  (hquery : ∀ n b, I n b →
    (∃ b', query mode hooks b = .ok (false, b')) ∨ (∃ f, query mode hooks b = .error f ∧ P f) ∨
      ∃ m b₁, m < n ∧ query mode hooks b = .ok (true, b₁) ∧
        ((∃ f, body b₁.state = .error f ∧ P f) ∨ ∃ x, body b₁.state = .ok x ∧ I m ⟨b₁.active, x⟩))

include hquery

/-- A loop ends within its fuel if every query and every body does, and the queries that are
answered `true` count down from less than the fuel. -/
theorem loop_ends : ∀ {fuel n : Nat} {b : Bracket σ}, n < fuel → I n b →
    (∃ r, loop mode hooks body fuel b = some (.ok r)) ∨
      ∃ f, loop mode hooks body fuel b = some (.error f) ∧ P f := by
  intro fuel
  induction fuel with
  | zero => exact fun hn => absurd hn (Nat.not_lt_zero _)
  | succ fuel ih =>
    intro n b hn hb
    rcases hquery n b hb with ⟨b', hq⟩ | ⟨f, hq, hf⟩ | ⟨m, b₁, hm, hq, ⟨f, hx, hf⟩ | ⟨x, hx, hI⟩⟩
    · exact Or.inl ⟨⟨b', []⟩, by simp only [loop, hq]⟩
    · exact Or.inr ⟨f, by simp only [loop, hq], hf⟩
    · exact Or.inr ⟨f, by simp only [loop, hq, hx], hf⟩
    · rcases ih (by omega : m < fuel) hI with ⟨r, hr⟩ | ⟨f, hf, hP⟩
      · exact Or.inl ⟨⟨r.bracket, b₁.state :: r.found⟩, by simp only [loop, hq, hx, hr]; rfl⟩
      · exact Or.inr ⟨f, by simp only [loop, hq, hx, hf]; rfl, hP⟩

/-- A run ends with an outcome of its own if every query and every body does, and the queries that
are answered `true` count down. -/
theorem run_ends {n : Nat} {b : Bracket σ} (hb : I n b) (hn : n < UInt32.size) :
    (∃ r, run mode hooks body b = .ok r) ∨ ∃ f, run mode hooks body b = .error f ∧ P f := by
  unfold run
  rcases loop_ends hquery hn hb with ⟨r, hr⟩ | ⟨f, hf, hP⟩
  · exact Or.inl ⟨r, by rw [hr, Option.getD_some]⟩
  · exact Or.inr ⟨f, by rw [hf, Option.getD_some], hP⟩

end Ends

/-! ## Runs beside a context -/

variable {κ : Type}

/-- The body beside a state that it does not see. -/
def besideState (body : κ → Except Fault κ) : σ × κ → Except Fault (σ × κ) :=
  fun (s, c) => do return (s, ← body c)

theorem besideState_eq_ok_iff {body : κ → Except Fault κ} {s : σ} {c : κ} {x : σ × κ} :
    besideState body (s, c) = .ok x ↔ ∃ c', body c = .ok c' ∧ (s, c') = x := by
  simp only [besideState, bind_eq_ok_iff, pure_eq_ok, Except.ok.injEq]

/-- A query is the same with its entry decided. -/
theorem queryIn_decided {hooks : Hooks (σ × κ)} {b : Bracket σ} {c : κ}
    {entry : Except Fault (Bool × σ × κ)} (h : hooks.wantsEntry (b.state, c) = entry) :
    queryIn mode (hooks.decided entry) b c = queryIn mode hooks b c := by
  unfold queryIn
  rw [query_decided h]

/-- A run is the same with its entry decided. -/
theorem runIn_decided {hooks : Hooks (σ × κ)} {body : κ → Except Fault κ} {b : Bracket σ} {c : κ}
    {entry : Except Fault (Bool × σ × κ)} (h : hooks.wantsEntry (b.state, c) = entry) :
    runIn mode (hooks.decided entry) body b c = runIn mode hooks body b c := by
  unfold runIn
  rw [run_congr (query_decided_of_open entry) (query_decided h)]

/-- A run in a context returns exactly the traces beside it that its counter can hold. -/
theorem runIn_eq_ok_iff {hooks : Hooks (σ × κ)} {body : κ → Except Fault κ} {b : Bracket σ} {c : κ}
    {t : Turn σ κ} : runIn mode hooks body b c = .ok t ↔ ∃ found b',
      Trace mode hooks (besideState body) (b.beside c) found b' ∧ found.length < UInt32.size ∧
        ⟨b'.alone, b'.context, found.map Prod.snd⟩ = t := by
  have hrun : runIn mode hooks body b c = (do
      let r ← run mode hooks (besideState body) (b.beside c)
      return ⟨r.bracket.alone, r.bracket.context, r.found.map Prod.snd⟩) := rfl
  simp only [hrun, bind_eq_ok_iff, run_eq_ok_iff, pure_eq_ok, Except.ok.injEq]
  constructor
  · rintro ⟨⟨b', found⟩, ⟨htrace, hlen⟩, ht⟩
    exact ⟨found, b', htrace, hlen, ht⟩
  · rintro ⟨found, b', htrace, hlen, ht⟩
    exact ⟨⟨b', found⟩, ⟨htrace, hlen⟩, ht⟩

/-! ## Single invocations -/

section Once

variable {hooks : Hooks (σ × κ)} {body : κ → Except Fault κ} {s s' : σ} {c c' : κ}

/-- A driver that declines runs no body. -/
theorem runIn_of_declined (h : hooks.wantsEntry (s, c) = .ok (false, s', c')) :
    runIn mode hooks body (.idle s) c = .ok ⟨.idle s', c', []⟩ := by
  refine runIn_eq_ok_iff.mpr ⟨[], .idle (s', c'), .declined ?_, Nat.zero_lt_succ _, rfl⟩
  rw [query_of_inactive rfl]
  show (hooks.wantsEntry (s, c) >>= _) = _
  rw [h]
  rfl

/-- In mode `once` a driver that enters runs one body, whatever its hooks say of more. -/
theorem runIn_once_of_entered {x : σ × κ} {s₁ : σ} {c₁ c₂ : κ}
    (hwants : hooks.wantsEntry (s, c) = .ok (true, x)) (henter : hooks.enter x = .ok (s₁, c₁))
    (hbody : body c₁ = .ok c₂) (hleave : hooks.leave (s₁, c₂) = .ok (s', c')) :
    runIn .once hooks body (.idle s) c = .ok ⟨.idle s', c', [c₁]⟩ := by
  refine runIn_eq_ok_iff.mpr ⟨[(s₁, c₁)], .idle (s', c'), ?_, (by decide : 1 < UInt32.size), rfl⟩
  have hruns : query .once hooks ((Bracket.idle s).beside c) = .ok (true, ⟨true, (s₁, c₁)⟩) := by
    rw [query_of_inactive rfl]
    show (hooks.wantsEntry (s, c) >>= _) = _
    rw [hwants, ok_bind]
    show (hooks.enter x >>= _) = _
    rw [henter]
    rfl
  have hends : query .once hooks ⟨true, (s₁, c₂)⟩ = .ok (false, .idle (s', c')) := by
    rw [query_of_active rfl]
    show (hooks.leave (s₁, c₂) >>= _) = _
    rw [hleave]
    rfl
  exact .ran hruns (besideState_eq_ok_iff.mpr ⟨c₂, hbody, rfl⟩) (.declined hends)

/-- What a turn in mode `once` comes to: the driver declines, or one body runs. -/
theorem runIn_once_cases {turn : Turn σ κ}
    (h : runIn .once hooks body (.idle s) c = .ok turn) :
    (∃ s' c', hooks.wantsEntry (s, c) = .ok (false, s', c') ∧ turn = ⟨.idle s', c', []⟩) ∨
      ∃ x s₁ c₁ c₂ s' c', hooks.wantsEntry (s, c) = .ok (true, x) ∧ hooks.enter x = .ok (s₁, c₁) ∧
        body c₁ = .ok c₂ ∧ hooks.leave (s₁, c₂) = .ok (s', c') ∧
        turn = ⟨.idle s', c', [c₁]⟩ := by
  obtain ⟨found, b', htrace, -, rfl⟩ := runIn_eq_ok_iff.mp h
  cases htrace with
  | declined hdeclines =>
    rw [query_of_inactive rfl] at hdeclines
    obtain ⟨⟨wanted, s', c'⟩, hwants, hb⟩ := bind_eq_ok_iff.mp hdeclines
    cases wanted with
    | false =>
      cases hb
      exact Or.inl ⟨s', c', hwants, rfl⟩
    | true =>
      obtain ⟨_, -, hb⟩ := bind_eq_ok_iff.mp hb
      cases hb
  | ran hruns hbody hrest =>
    rw [query_of_inactive rfl] at hruns
    obtain ⟨⟨wanted, x⟩, hwants, hb⟩ := bind_eq_ok_iff.mp hruns
    cases wanted with
    | false => cases hb
    | true =>
      obtain ⟨⟨s₁, c₁⟩, henter, hb⟩ := bind_eq_ok_iff.mp hb
      cases hb
      obtain ⟨c₂, hc₂, rfl⟩ := besideState_eq_ok_iff.mp hbody
      -- an open bracket is not asked again, it is left
      cases hrest with
      | declined hdeclines =>
        rw [query_of_active rfl] at hdeclines
        obtain ⟨_, hmore, hb⟩ := bind_eq_ok_iff.mp hdeclines
        cases hmore
        obtain ⟨⟨s', c'⟩, hleave, hb⟩ := bind_eq_ok_iff.mp hb
        cases hb
        exact Or.inr ⟨x, s₁, c₁, c₂, s', c', hwants, henter, hc₂, hleave, rfl⟩
      | ran hruns =>
        rw [query_of_active rfl] at hruns
        obtain ⟨_, hmore, hb⟩ := bind_eq_ok_iff.mp hruns
        cases hmore
        obtain ⟨_, -, hb⟩ := bind_eq_ok_iff.mp hb
        cases hb

end Once

end Bracket

end Metronome
