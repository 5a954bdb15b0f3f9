import Metronome.Server
import Metronome.Proofs.Accumulator
import Metronome.Proofs.Bracket
import Metronome.Proofs.Circle
import Metronome.Proofs.StepFlags
import Metronome.Proofs.World

/-!
# The server follows its plan

The server finds the lengths of its batches by counting down, and lowers the length once, when only
short batches are left. Between the invocations of a frame the driver is `Counting`: what is left of
the countdown of its plan is what it will run (`Counting.step_eq_ok`, `Counting.counted`). A frame
therefore runs exactly the lengths of its plan (`exists_follows`), and whatever its bodies do, no
counter of the driver fails (`run_ends`). Over frames in a row the tick moves on by the ticks of all
plans (`passes_follow_plans`).
-/

namespace Metronome

open Tick

variable {τ φ H : Type}

/-- The invocations of the server in the log, oldest first. -/
def World.served (w : World τ φ H) : List (Invocation τ φ) :=
  w.invocations.filter fun i => i.driver = .server

theorem World.served_record (w : World τ φ H) (e : Event τ φ) :
    (w.record e).served = w.served ++ e.invocation?.toList.filter fun i => i.driver = .server := by
  unfold served
  rw [invocations_record, List.filter_append]

namespace Server

/-! ## Ticks of a frame -/

theorem onCircle_nextTick {t : Tick} (h : t.Regular) (n : UInt32) : (nextTick t n).OnCircle := by
  unfold nextTick
  split
  · exact (h.onCircle ‹_›).shift n
  · exact OnCircle.ofIndex n

/-- Counting starts at the first place, and goes around the circle. -/
theorem place_nextTick {t : Tick} (h : t.Regular) (n : UInt32) :
    (nextTick t n).place = (t.place + n.toNat) % 2147483648 := by
  unfold nextTick
  rcases h with rfl | h
  · rw [if_neg (by decide), place_eq, place_eq, ofIndex_toNat]
    show _ = (0 + _) % _
    omega
  · have hodd := onCircle_iff.mp h
    rw [if_pos h.isValid, place_eq, place_eq, raw_toNat_shift]
    omega

/-- Batches that run on from a tick: the index goes up by their ticks, modulo the circle. -/
inductive Advances : Tick → List (Invocation τ φ) → Tick → Prop
  /-- No batch. -/
  | nil {t : Tick} : Advances t [] t
  /-- A batch, and those after it. -/
  | cons {t u : Tick} {i : Invocation τ φ} {is : List (Invocation τ φ)} (onCircle : i.tick.OnCircle)
      (place_eq : i.tick.place = (t.place + i.batch.toNat) % 2147483648)
      (rest : Advances i.tick is u) : Advances t (i :: is) u

theorem Advances.regular {t u : Tick} {is : List (Invocation τ φ)} (h : Advances t is u)
    (ht : t.Regular) : u.Regular := by
  induction h with
  | nil => exact ht
  | cons honCircle _ _ ih => exact ih (Or.inr honCircle)

/-- Batches that run on from a tick add up. -/
theorem Advances.place_eq {t u : Tick} {is : List (Invocation τ φ)} (h : Advances t is u) :
    u.place = (t.place + (is.map fun i => i.batch.toNat).sum) % 2147483648 := by
  induction h with
  | @nil t =>
    have := t.place_lt
    simp only [List.map_nil, List.sum_nil]
    omega
  | cons _ hplace _ ih =>
    rw [ih, List.map_cons, List.sum_cons, hplace]
    omega

theorem Advances.append {t u v : Tick} {is js : List (Invocation τ φ)} (h : Advances t is u)
    (h' : Advances u js v) : Advances t (is ++ js) v := by
  induction h with
  | nil => exact h'
  | cons honCircle hplace _ ih => exact .cons honCircle hplace (ih h')

theorem Advances.onCircle {t u : Tick} {is : List (Invocation τ φ)} (h : Advances t is u)
    (hne : is ≠ []) : u.OnCircle := by
  induction h with
  | nil => exact absurd rfl hne
  | @cons _ _ _ is honCircle _ hrest ih =>
    cases hrest with
    | nil => exact honCircle
    | cons => exact ih (List.cons_ne_nil _ _)

/-! ## Counting down -/

/-- What holds of the driver between the invocations of a frame: it has counted as many of them as
are not left of its plan, and its length is that of the batch before. -/
structure Counting (s : Server τ) : Prop where
  fair : s.plan.Fair
  count : s.invocations.toNat + s.remaining.toNat = s.plan.total.toNat
  length_eq : s.length =
    if s.remaining.toNat < s.plan.short.toNat then s.plan.length - 1 else s.plan.length

/-- The length of the next batch. -/
def nextLength (s : Server τ) : UInt32 :=
  if s.remaining.toNat ≤ s.plan.short.toNat then s.plan.length - 1 else s.plan.length

/-- The driver after the next batch was counted. -/
def counted (s : Server τ) : Server τ :=
  { s with remaining := s.remaining - 1, length := s.nextLength, invocations := s.invocations + 1 }

theorem toNat_remaining_sub {s : Server τ} (hpos : 0 < s.remaining.toNat) :
    (s.remaining - 1).toNat = s.remaining.toNat - 1 :=
  UInt32.toNat_sub_of_le _ _ (UInt32.le_iff_toNat_le.mpr hpos)

/-- Counting a batch takes it off the countdown of the plan. -/
theorem countdown_remaining {s : Server τ} (hpos : 0 < s.remaining.toNat) :
    s.plan.countdown s.remaining.toNat =
      s.nextLength :: s.plan.countdown s.counted.remaining.toNat := by
  have hnext : s.counted.remaining.toNat = s.remaining.toNat - 1 := toNat_remaining_sub hpos
  rw [hnext]
  obtain ⟨n, hn⟩ := Nat.exists_eq_add_of_lt hpos
  rw [Nat.zero_add] at hn
  rw [nextLength, hn, Nat.add_sub_cancel, StepPlan.countdown]

/-- A driver that counts goes on counting. -/
theorem Counting.counted {s : Server τ} (h : Counting s) (hpos : 0 < s.remaining.toNat) :
    Counting s.counted where
  fair := h.fair
  count := by
    have h1 : (1 : UInt32).toNat = 1 := rfl
    have hcount := h.count
    have hle := h.fair.total_le
    show (s.invocations + 1).toNat + (s.remaining - 1).toNat = s.plan.total.toNat
    rw [toNat_remaining_sub hpos, UInt32.toNat_add, h1]
    omega
  length_eq := by
    show s.nextLength = if (s.remaining - 1).toNat < s.plan.short.toNat then _ else _
    rw [toNat_remaining_sub hpos, nextLength]
    have hiff : s.remaining.toNat ≤ s.plan.short.toNat ↔
        s.remaining.toNat - 1 < s.plan.short.toNat := by omega
    simp only [hiff]
    rfl

variable [Seconds τ] [Fraction φ] [Host H τ]

/-- The time record at the next batch. -/
def nextTime (s : Server τ) (w : World τ φ H) : TimeRecord τ φ :=
  stepTime w.time s.nextLength (s.remaining - 1) (w.config.step * Seconds.ofInt s.nextLength.toNat)

/-- The invocation of the next batch. -/
def invocation (s : Server τ) (w : World τ φ H) : Invocation τ φ where
  driver := .server
  tick := (s.nextTime w).serverTick
  fraction := 1
  batch := s.nextLength
  flags := (s.nextTime w).flags
  window := ⟨(s.nextTime w).elapsed, w.config.step * Seconds.ofInt s.nextLength.toNat⟩

/-- The world in the scope of the next batch. -/
def opened (s : Server τ) (w : World τ φ H) : World τ φ H :=
  { w with time := s.nextTime w }.invoke (s.invocation w)

/-- While batches are left, a step returns and opens the next one. -/
theorem Counting.step_eq_ok {s : Server τ} (h : Counting s) (hpos : 0 < s.remaining.toNat)
    (w : World τ φ H) : step (s, w) = .ok (s.counted, s.opened w) := by
  have h1 : (1 : UInt32).toNat = 1 := rfl
  have hcount := h.count
  have htotal := h.fair.total_le
  have hremaining : subChecked s.remaining 1 = .ok (s.remaining - 1) :=
    subChecked_eq_ok (UInt32.le_iff_toNat_le.mpr hpos)
  have hinvocations : addChecked s.invocations 1 = .ok (s.invocations + 1) :=
    addChecked_eq_ok (by rw [h1, UInt32.size]; omega)
  have hlength := h.length_eq
  by_cases heq : s.remaining = s.plan.short
  · -- the first short batch: the length goes down
    have hrest : s.remaining.toNat = s.plan.short.toNat := by rw [heq]
    rw [if_neg (by omega)] at hlength
    have hnext : subChecked s.length 1 = .ok s.nextLength := by
      rw [nextLength, if_pos (by omega), hlength]
      exact subChecked_eq_ok (UInt32.le_iff_toNat_le.mpr h.fair.length_pos)
    simp only [step, if_pos heq, hnext, hremaining, hinvocations, ok_bind, pure_eq_ok]
    rfl
  · have hrest : s.remaining.toNat ≠ s.plan.short.toNat := fun h => heq (UInt32.toNat_inj.mp h)
    have hiff : s.remaining.toNat < s.plan.short.toNat ↔
        s.remaining.toNat ≤ s.plan.short.toNat := by omega
    have hnext : s.length = s.nextLength := by
      rw [hlength, nextLength]
      simp only [hiff]
    simp only [step, if_neg heq, hnext, hremaining, hinvocations, ok_bind, pure_eq_ok]
    rfl

/-! ## Queries -/

/-- The plan of the frame that a driver finds. -/
def planned (s : Server τ) (w : World τ φ H) : StepPlan :=
  (s.accumulator.advance w.frame.delta w.config).1

/-- The driver that declines a frame. -/
def skipped (s : Server τ) (w : World τ φ H) : Server τ :=
  { s with accumulator := (s.accumulator.advance w.frame.delta w.config).2, plan := s.planned w }

/-- The driver that begins a frame. -/
def begun (s : Server τ) (w : World τ φ H) : Server τ where
  accumulator := (s.accumulator.advance w.frame.delta w.config).2
  plan := s.planned w
  remaining := (s.planned w).total
  length := (s.planned w).length
  invocations := 0

/-- The world after the last invocation of a frame. -/
def left (s : Server τ) (w : World τ φ H) : World τ φ H :=
  { w with time := { w.time with flags := w.time.flags.remove StepFlags.catchUp } }.record
    (.exited .server s.invocations)

omit [Fraction φ] [Host H τ] in
theorem fair_planned (s : Server τ) (w : World τ φ H) : (s.planned w).Fair :=
  StepPlan.fair_take w.frame.delta w.config.step w.config.maxSteps w.config.maxBatch
    s.accumulator.residual

omit [Fraction φ] [Host H τ] in
theorem counting_begun (s : Server τ) (w : World τ φ H) : Counting (s.begun w) where
  fair := s.fair_planned w
  count := Nat.zero_add _
  length_eq := (if_neg (Nat.not_lt.mpr (s.fair_planned w).short_le)).symm

/-- A frame without a batch is declined. -/
theorem query_idle_of_eq_zero {s : Server τ} {w : World τ φ H} (h : (s.planned w).total = 0) :
    Bracket.query .repeatWhile hooks ⟨false, (s, w)⟩ =
      .ok (false, ⟨false, (s.skipped w, w.record (.skipped .server .noSteps))⟩) := by
  have hentry : wantsEntry (s, w) =
      .ok (false, s.skipped w, w.record (.skipped .server .noSteps)) :=
    if_pos h
  rw [Bracket.query_of_inactive rfl]
  simp only [hooks, hentry, ok_bind]
  rfl

/-- A frame with a plan opens its first batch. -/
theorem query_idle_of_ne_zero {s : Server τ} {w : World τ φ H} (h : (s.planned w).total ≠ 0) :
    Bracket.query .repeatWhile hooks ⟨false, (s, w)⟩ =
      .ok (true, ⟨true, ((s.begun w).counted,
        (s.begun w).opened (w.record (.entered .server w.time.serverTick)))⟩) := by
  have hentry : wantsEntry (s, w) =
      .ok (true, s.begun w, w.record (.entered .server w.time.serverTick)) :=
    if_neg h
  have hpos : 0 < (s.begun w).remaining.toNat :=
    Nat.pos_of_ne_zero fun hzero => h (UInt32.toNat_inj.mp hzero)
  rw [Bracket.query_of_inactive rfl]
  simp only [hooks, hentry, ok_bind, (s.counting_begun w).step_eq_ok hpos]
  rfl

/-- An open invocation is followed by the next batch while one is left. -/
theorem Counting.query_of_pos {s : Server τ} (h : Counting s) (hpos : 0 < s.remaining.toNat)
    {w w₁ : World τ φ H} (hexit : w.exitScope = .ok w₁) :
    Bracket.query .repeatWhile hooks ⟨true, (s, w)⟩ =
      .ok (true, ⟨true, (s.counted, s.opened w₁)⟩) := by
  have hmore : s.remaining > 0 := UInt32.lt_iff_toNat_lt.mpr hpos
  rw [Bracket.query_of_active rfl]
  simp only [Bracket.goesOn, hooks, ok_bind, hmore, decide_true, ↓reduceIte, hexit,
    h.step_eq_ok hpos]
  rfl

/-- After the last batch the frame is left. -/
theorem query_of_eq_zero {s : Server τ} (hzero : s.remaining.toNat = 0) {w w₁ : World τ φ H}
    (hexit : w.exitScope = .ok w₁) :
    Bracket.query .repeatWhile hooks ⟨true, (s, w)⟩ = .ok (false, ⟨false, (s, s.left w₁)⟩) := by
  have hdone : ¬s.remaining > 0 := fun hpos =>
    Nat.ne_of_gt (UInt32.lt_iff_toNat_lt.mp hpos) hzero
  rw [Bracket.query_of_active rfl]
  simp only [Bracket.goesOn, hooks, ok_bind, hdone, decide_false, Bool.false_eq_true, ↓reduceIte,
    hexit]
  rfl

/-- An open invocation whose scope was closed by a body is a fault. -/
theorem query_of_underflow {s : Server τ} {w : World τ φ H}
    (hexit : w.exitScope = .error .scopeUnderflow) :
    Bracket.query .repeatWhile hooks ⟨true, (s, w)⟩ = .error .scopeUnderflow := by
  rw [Bracket.query_of_active rfl]
  simp only [Bracket.goesOn, hooks, ok_bind, hexit, error_bind]
  split <;> rfl

/-- What a query of an open invocation comes to. -/
theorem Counting.query_cases {s : Server τ} (h : Counting s) (w : World τ φ H) :
    Bracket.query .repeatWhile hooks ⟨true, (s, w)⟩ = .error .scopeUnderflow ∧
        w.exitScope = .error .scopeUnderflow ∨
      ∃ w₁, w.exitScope = .ok w₁ ∧
        (0 < s.remaining.toNat ∧ Bracket.query .repeatWhile hooks ⟨true, (s, w)⟩ =
            .ok (true, ⟨true, (s.counted, s.opened w₁)⟩) ∨
          s.remaining.toNat = 0 ∧ Bracket.query .repeatWhile hooks ⟨true, (s, w)⟩ =
            .ok (false, ⟨false, (s, s.left w₁)⟩)) := by
  rcases World.exitScope_cases w with ⟨w₁, hexit⟩ | hexit
  · rcases Nat.eq_zero_or_pos s.remaining.toNat with hzero | hpos
    · exact Or.inr ⟨w₁, hexit, Or.inr ⟨hzero, query_of_eq_zero hzero hexit⟩⟩
    · exact Or.inr ⟨w₁, hexit, Or.inl ⟨hpos, h.query_of_pos hpos hexit⟩⟩
  · exact Or.inl ⟨query_of_underflow hexit, hexit⟩

/-! ## A frame -/

/-- A body that leaves the time record as it found it. -/
def KeepsTime (body : World τ φ H → Except Fault (World τ φ H)) : Prop :=
  ∀ w w', body w = .ok w' → w'.time = w.time

/-- A body that keeps what the server logged. -/
def KeepsServed (body : World τ φ H → Except Fault (World τ φ H)) : Prop :=
  ∀ w w', body w = .ok w' → w'.served = w.served

/-- What is left of a frame: the batches of a driver that counts, as their bodies find them, and the
driver and the world in the end. -/
structure Rest (body : World τ φ H → Except Fault (World τ φ H)) (s : Server τ) (w : World τ φ H)
    (found : List (World τ φ H)) (is : List (Invocation τ φ)) (s' : Server τ) (w' : World τ φ H) :
    Prop where
  found_eq : found.map World.invocation? = is.map some
  batches : is.map Invocation.batch = s.plan.countdown s.remaining.toNat
  advances : Advances w.time.serverTick is w'.time.serverTick
  server : ∀ i ∈ is, i.driver = .server ∧ i.fraction = 1
  catchUp : ∀ k (hk : k < is.length),
    is[k].flags.contains StepFlags.catchUp = decide (k + 1 < is.length)
  clear : w'.time.flags.contains StepFlags.catchUp = false
  plan : s'.plan = s.plan
  served : KeepsServed body → w'.served = w.served ++ is

variable {body : World τ φ H → Except Fault (World τ φ H)}

theorem served_opened (s : Server τ) (w : World τ φ H) :
    (s.opened w).served = w.served ++ [s.invocation w] :=
  World.served_record _ (.invoked (s.invocation w))

omit [Seconds τ] [Fraction φ] [Host H τ] in
theorem served_left (s : Server τ) (w : World τ φ H) : (s.left w).served = w.served :=
  (World.served_record _ (.exited .server s.invocations)).trans (List.append_nil _)

omit [Seconds τ] [Host H τ] in
theorem Rest.length_eq {s s' : Server τ} {w w' : World τ φ H} {found : List (World τ φ H)}
    {is : List (Invocation τ φ)} (h : Rest body s w found is s' w') :
    is.length = s.remaining.toNat := by
  simpa using congrArg List.length h.batches

omit [Seconds τ] [Host H τ] in
/-- Nothing is left when the frame is left. -/
theorem rest_left {s : Server τ} (hzero : s.remaining.toNat = 0) (w : World τ φ H) :
    Rest body s w [] [] s (s.left w) where
  found_eq := rfl
  batches := by simp [hzero, StepPlan.countdown]
  advances := .nil
  server := by simp
  catchUp := by simp
  clear := StepFlags.contains_remove_of_mem (by decide) (by decide)
  plan := rfl
  served _ := by rw [served_left, List.append_nil]

/-- One batch more is left. -/
theorem Rest.cons {s s' : Server τ} {w x w' : World τ φ H} {found : List (World τ φ H)}
    {is : List (Invocation τ φ)} (hpos : 0 < s.remaining.toNat)
    (hregular : w.time.serverTick.Regular) (htime : x.time = (s.opened w).time)
    (hserved : KeepsServed body → x.served = (s.opened w).served)
    (h : Rest body s.counted x found is s' w') :
    Rest body s w (s.opened w :: found) (s.invocation w :: is) s' w' where
  found_eq := by
    rw [List.map_cons, h.found_eq]
    rfl
  batches := by
    rw [List.map_cons, h.batches, countdown_remaining hpos]
    rfl
  advances := by
    have hstep := h.advances
    rw [htime] at hstep
    exact .cons (onCircle_nextTick hregular _) (place_nextTick hregular _) hstep
  server := by
    intro i hi
    rcases List.mem_cons.mp hi with rfl | hi
    · exact ⟨rfl, rfl⟩
    · exact h.server i hi
  catchUp := by
    have hlength : is.length = s.remaining.toNat - 1 := by
      rw [h.length_eq]
      exact toNat_remaining_sub hpos
    intro k hk
    cases k with
    | zero =>
      have hmore : s.remaining - 1 > 0 ↔ 0 + 1 < (s.invocation w :: is).length := by
        rw [gt_iff_lt, UInt32.lt_iff_toNat_lt, toNat_remaining_sub hpos, List.length_cons, hlength]
        show 0 < _ ↔ _
        omega
      show (w.time.flags.set StepFlags.catchUp (s.remaining - 1 > 0)).contains _ = _
      rw [StepFlags.contains_set_self (by decide)]
      exact decide_eq_decide.mpr hmore
    | succ k =>
      rw [List.getElem_cons_succ, h.catchUp k (Nat.lt_of_succ_lt_succ hk), List.length_cons]
      exact decide_eq_decide.mpr (Nat.add_lt_add_iff_right (k := 1)).symm
  clear := h.clear
  plan := h.plan
  served := by
    intro hkeeps
    rw [h.served hkeeps, hserved hkeeps, served_opened, List.append_assoc]
    rfl

/-- Queried after a body, a bracket whose driver counts runs what is left of the frame. -/
theorem rest_of_trace (htime : KeepsTime body) {b b' : Bracket (Server τ × World τ φ H)}
    {found : List (Server τ × World τ φ H)}
    (h : Bracket.Trace .repeatWhile hooks (Bracket.besideState body) b found b') :
    b.active = true → Counting b.state.1 → b.state.2.time.serverTick.Regular →
      ∃ w is, b.state.2.exitScope = .ok w ∧
        Rest body b.state.1 w (found.map Prod.snd) is b'.state.1 b'.state.2 ∧
        b'.active = false := by
  induction h with
  | @declined b b' hq =>
    obtain ⟨active, s, w⟩ := b
    rintro rfl hcounting -
    rcases hcounting.query_cases w with ⟨heq, -⟩ | ⟨w₁, hexit, ⟨-, heq⟩ | ⟨hzero, heq⟩⟩
    · cases heq.symm.trans hq
    · cases heq.symm.trans hq
    · cases heq.symm.trans hq
      exact ⟨w₁, [], hexit, rest_left hzero w₁, rfl⟩
  | @ran b b₁ b' x found hq hx _ ih =>
    obtain ⟨active, s, w⟩ := b
    rintro rfl hcounting hregular
    rcases hcounting.query_cases w with ⟨heq, -⟩ | ⟨w₁, hexit, ⟨hpos, heq⟩ | ⟨-, heq⟩⟩
    · cases heq.symm.trans hq
    · cases heq.symm.trans hq
      obtain ⟨y, hbody, rfl⟩ := Bracket.besideState_eq_ok_iff.mp hx
      have hkept : w₁.time = w.time := by rw [World.exitScope_frame hexit]
      rw [← hkept] at hregular
      obtain ⟨w₂, is, hexit₂, hrest, hidle⟩ := ih rfl (hcounting.counted hpos)
        (htime _ _ hbody ▸ Or.inr (onCircle_nextTick hregular _))
      have htime₂ : w₂.time = y.time := by rw [World.exitScope_frame hexit₂]
      have hpast₂ : w₂.served = y.served := by rw [World.exitScope_frame hexit₂]; rfl
      exact ⟨w₁, _, hexit, hrest.cons hpos hregular (htime₂.trans (htime _ _ hbody))
        fun hserved => hpast₂.trans (hserved _ _ hbody), hidle⟩
    · cases heq.symm.trans hq

/-- What a frame comes to: it is skipped, or all batches of its plan are run. -/
theorem run_cases (htime : KeepsTime body) {s : Server τ} {w : World τ φ H}
    (hregular : w.time.serverTick.Regular) {turn : Bracket.Turn (Server τ) (World τ φ H)}
    (hrun : run (.idle s) w body = .ok turn) :
    (s.planned w).total = 0 ∧
        turn = ⟨.idle (s.skipped w), w.record (.skipped .server .noSteps), []⟩ ∨
      ∃ is s', turn.driver = .idle s' ∧
        Rest body (s.begun w) (w.record (.entered .server w.time.serverTick)) turn.found is s'
          turn.context := by
  obtain ⟨found, b', htrace, -, rfl⟩ := Bracket.runIn_eq_ok_iff.mp hrun
  by_cases hnone : (s.planned w).total = 0
  · cases htrace with
    | declined hq =>
      cases (query_idle_of_eq_zero hnone).symm.trans hq
      exact Or.inl ⟨hnone, rfl⟩
    | ran hq => cases (query_idle_of_eq_zero hnone).symm.trans hq
  · have hpos : 0 < (s.begun w).remaining.toNat :=
      Nat.pos_of_ne_zero fun hzero => hnone (UInt32.toNat_inj.mp hzero)
    cases htrace with
    | declined hq => cases (query_idle_of_ne_zero hnone).symm.trans hq
    | ran hq hx htrace =>
      cases (query_idle_of_ne_zero hnone).symm.trans hq
      obtain ⟨y, hbody, rfl⟩ := Bracket.besideState_eq_ok_iff.mp hx
      have hy := htime _ _ hbody
      have hnext : y.time.serverTick.OnCircle := by
        rw [hy]
        exact onCircle_nextTick hregular _
      obtain ⟨w₁, is, hexit, hrest, hidle⟩ :=
        rest_of_trace htime htrace rfl ((s.counting_begun w).counted hpos) (Or.inr hnext)
      have htime₁ : w₁.time = y.time := by rw [World.exitScope_frame hexit]
      have hserved₁ : w₁.served = y.served := by rw [World.exitScope_frame hexit]; rfl
      have hentered : (w.record (.entered .server w.time.serverTick)).time.serverTick.Regular :=
        hregular
      have hall := hrest.cons hpos hentered (htime₁.trans hy)
        fun hserved => hserved₁.trans (hserved _ _ hbody)
      exact Or.inr ⟨_, _, congrArg (Bracket.mk · _) hidle, hall⟩

/-- A frame: the world that it finds, the body of its invocations, and what it came to. -/
structure Pass (τ φ H : Type) where
  before : World τ φ H
  body : World τ φ H → Except Fault (World τ φ H)
  turn : Bracket.Turn (Server τ) (World τ φ H)

/-- The plan of a frame, as the driver tells it afterwards. -/
def Pass.plan (p : Pass τ φ H) : StepPlan :=
  p.turn.driver.state.plan

/-- A frame follows its plan with these invocations. -/
structure Follows (p : Pass τ φ H) (is : List (Invocation τ φ)) : Prop where
  /-- They are what the bodies find logged last, one after another. -/
  found_eq : p.turn.found.map World.invocation? = is.map some
  /-- They are what the frame adds to the log of the server. -/
  served : KeepsServed p.body → p.turn.context.served = p.before.served ++ is
  /-- The frame counts them. -/
  count_eq : p.turn.count = p.plan.total.toNat
  /-- Their batches are the lengths of the plan. -/
  lengths_eq : p.plan.lengths = .ok (is.map Invocation.batch)
  /-- The tick goes on by their batches. -/
  advances : Advances p.before.time.serverTick is p.turn.context.time.serverTick
  /-- They are the server's, of one whole tick at least. -/
  server : ∀ i ∈ is, i.driver = .server ∧ i.fraction = 1 ∧ 1 ≤ i.batch.toNat
  /-- All but the last are flagged as those that others follow. -/
  catchUp : ∀ k (hk : k < is.length),
    is[k].flags.contains StepFlags.catchUp = decide (k + 1 < is.length)
  /-- The flag is clear after the frame. -/
  clear : p.turn.context.time.flags.contains StepFlags.catchUp = false

/-- A frame that returns follows its plan. -/
theorem exists_follows {s : Server τ} {p : Pass τ φ H} (htime : KeepsTime p.body)
    (hregular : p.before.time.serverTick.Regular)
    (hclear : p.before.time.flags.contains StepFlags.catchUp = false)
    (hrun : run (.idle s) p.before p.body = .ok p.turn) :
    (∃ is, Follows p is) ∧ p.plan.Fair ∧ ∃ s', p.turn.driver = .idle s' := by
  have hfair := s.fair_planned p.before
  rcases run_cases htime hregular hrun with ⟨hnone, hturn⟩ | ⟨is, s', hdriver, hrest⟩
  · have hplan : p.plan = s.planned p.before := by rw [Pass.plan, hturn]; rfl
    have hcount : (s.planned p.before).total.toNat = 0 := by rw [hnone]; rfl
    have hlengths := hfair.lengths_eq_ok
    rw [hcount] at hlengths
    refine ⟨⟨[], ?_⟩, hplan ▸ hfair, _, congrArg Bracket.Turn.driver hturn⟩
    constructor
    case found_eq => rw [hturn]; rfl
    case served =>
      rw [hturn]
      exact fun _ => World.served_record _ _
    case count_eq => rw [hplan, hcount, hturn]; rfl
    case lengths_eq => rw [hplan]; exact hlengths
    case advances => rw [hturn]; exact .nil
    case server => simp
    case catchUp => simp
    case clear => rw [hturn]; exact hclear
  · have hplan : p.plan = s.planned p.before := by
      rw [Pass.plan, hdriver]
      exact hrest.plan
    refine ⟨⟨is, ?_⟩, hplan ▸ hfair, _, hdriver⟩
    constructor
    case found_eq => exact hrest.found_eq
    case served =>
      intro hserved
      rw [hrest.served hserved, World.served_record]
      simp [Event.invocation?]
    case count_eq =>
      have hcount := congrArg List.length hrest.found_eq
      rw [List.length_map, List.length_map, hrest.length_eq] at hcount
      rw [hplan]
      exact hcount
    case lengths_eq => rw [hplan, hrest.batches]; exact hfair.lengths_eq_ok
    case advances => exact hrest.advances
    case server =>
      intro i hi
      obtain ⟨hdriver, hfraction⟩ := hrest.server i hi
      have hbatch := List.mem_map_of_mem (f := Invocation.batch) hi
      rw [hrest.batches] at hbatch
      exact ⟨hdriver, hfraction, hfair.one_le_of_mem hbatch⟩
    case catchUp => exact hrest.catchUp
    case clear => exact hrest.clear

omit [Seconds τ] [Host H τ] in
theorem Follows.length_eq {p : Pass τ φ H} {is : List (Invocation τ φ)} (h : Follows p is) :
    is.length = p.plan.total.toNat := by
  have hlength := congrArg List.length h.found_eq
  rw [List.length_map, List.length_map] at hlength
  exact hlength.symm.trans h.count_eq

omit [Seconds τ] [Host H τ] in
/-- The ticks of a plan are the sum of the batches that follow it. -/
theorem Follows.ticks_eq_ok {p : Pass τ φ H} {is : List (Invocation τ φ)} (h : Follows p is)
    (hfair : p.plan.Fair) : p.plan.ticks = .ok (is.map fun i => i.batch.toNat).sum := by
  have hbatches := Except.ok.inj (hfair.lengths_eq_ok.symm.trans h.lengths_eq)
  rw [hfair.ticks_eq_ok, hbatches, List.map_map]
  rfl

/-! ## Frames that end -/

/-- At most `n` batches are left: an open driver counts them, and `D` holds of its world; an idle
one may take any plan. -/
def AtMost (D : World τ φ H → Prop) (n : Nat) (b : Bracket (Server τ × World τ φ H)) : Prop :=
  b.active = true ∧ Counting b.state.1 ∧ b.state.1.remaining.toNat ≤ n ∧ D b.state.2 ∨
    b.active = false ∧ 2147483647 ≤ n

section Ends

variable {P : Fault → Prop} {D : World τ φ H → Prop}

/-- In the scope of a batch the body fails in one of the given ways, or it leaves a batch less. -/
theorem Counting.body_cases
    (hbody : ∀ w, 0 < w.depth → (∃ w', body w = .ok w' ∧ D w') ∨ ∃ f, body w = .error f ∧ P f)
    {s : Server τ} (h : Counting s) (hpos : 0 < s.remaining.toNat) (w : World τ φ H) :
    (∃ f, Bracket.besideState body (s.counted, s.opened w) = .error f ∧ P f) ∨
      ∃ x, Bracket.besideState body (s.counted, s.opened w) = .ok x ∧
        AtMost D (s.remaining.toNat - 1) ⟨true, x⟩ := by
  have hopen : 0 < (s.opened w).depth := Nat.succ_pos _
  rcases hbody (s.opened w) hopen with ⟨x, hx, hD⟩ | ⟨f, hf, hP⟩
  · refine Or.inr ⟨(s.counted, x), Bracket.besideState_eq_ok_iff.mpr ⟨x, hx, rfl⟩, Or.inl ?_⟩
    exact ⟨rfl, h.counted hpos, Nat.le_of_eq (toNat_remaining_sub hpos), hD⟩
  · exact Or.inl ⟨f, by simp only [Bracket.besideState, hf, error_bind], hP⟩

/-- A query ends the frame, fails in one of the given ways, or leaves a batch less. -/
theorem AtMost.query_cases
    (hexit : ∀ w, D w → (∃ w', w.exitScope = .ok w') ∨ P .scopeUnderflow)
    (hbody : ∀ w, 0 < w.depth → (∃ w', body w = .ok w' ∧ D w') ∨ ∃ f, body w = .error f ∧ P f)
    {n : Nat} {b : Bracket (Server τ × World τ φ H)} (h : AtMost D n b) :
    (∃ b', Bracket.query .repeatWhile hooks b = .ok (false, b')) ∨
      (∃ f, Bracket.query .repeatWhile hooks b = .error f ∧ P f) ∨
      ∃ m b₁, m < n ∧ Bracket.query .repeatWhile hooks b = .ok (true, b₁) ∧
        ((∃ f, Bracket.besideState body b₁.state = .error f ∧ P f) ∨
          ∃ x, Bracket.besideState body b₁.state = .ok x ∧ AtMost D m ⟨b₁.active, x⟩) := by
  obtain ⟨active, s, w⟩ := b
  rcases h with ⟨rfl, hcounting, hle, hD⟩ | ⟨rfl, hn⟩
  · rcases hcounting.query_cases w with ⟨heq, hfails⟩ | ⟨w₁, -, ⟨hpos, heq⟩ | ⟨-, heq⟩⟩
    · rcases hexit w hD with ⟨w', hw'⟩ | hP
      · cases hfails.symm.trans hw'
      · exact Or.inr (Or.inl ⟨_, heq, hP⟩)
    · have hlt : s.remaining.toNat - 1 < n := Nat.lt_of_lt_of_le (Nat.sub_lt hpos Nat.one_pos) hle
      exact Or.inr (Or.inr ⟨_, _, hlt, heq, hcounting.body_cases hbody hpos w₁⟩)
    · exact Or.inl ⟨_, heq⟩
  · by_cases hnone : (s.planned w).total = 0
    · exact Or.inl ⟨_, query_idle_of_eq_zero hnone⟩
    · have hpos : 0 < (s.begun w).remaining.toNat :=
        Nat.pos_of_ne_zero fun hzero => hnone (UInt32.toNat_inj.mp hzero)
      have htotal : (s.begun w).remaining.toNat ≤ 2147483647 := (s.fair_planned w).total_le
      have hlt : (s.begun w).remaining.toNat - 1 < n := by omega
      exact Or.inr (Or.inr ⟨_, _, hlt, query_idle_of_ne_zero hnone,
        (s.counting_begun w).body_cases hbody hpos _⟩)

/-- A frame returns, or fails in one of the given ways, if its bodies and the scopes that they leave
do. No counter of the driver fails. -/
theorem run_ends (hexit : ∀ w, D w → (∃ w', w.exitScope = .ok w') ∨ P .scopeUnderflow)
    (hbody : ∀ w, 0 < w.depth → (∃ w', body w = .ok w' ∧ D w') ∨ ∃ f, body w = .error f ∧ P f)
    (s : Server τ) (w : World τ φ H) :
    (∃ turn, run (.idle s) w body = .ok turn) ∨ ∃ f, run (.idle s) w body = .error f ∧ P f := by
  have hrun : run (.idle s) w body = (do
      let r ← Bracket.run .repeatWhile hooks (Bracket.besideState body) ((Bracket.idle s).beside w)
      return ⟨r.bracket.alone, r.bracket.context, r.found.map Prod.snd⟩) := rfl
  have hidle : AtMost D 2147483647 ((Bracket.idle s).beside w) :=
    Or.inr ⟨rfl, Nat.le_refl 2147483647⟩
  rcases Bracket.run_ends (fun _ _ h => AtMost.query_cases hexit hbody h) hidle (by decide) with
    ⟨r, hr⟩ | ⟨f, hf, hP⟩
  · exact Or.inl ⟨_, by rw [hrun, hr, ok_bind, pure_eq_ok]⟩
  · exact Or.inr ⟨f, by rw [hrun, hf, error_bind], hP⟩

end Ends

/-- A frame with a steady body returns. -/
theorem exists_run (hbody : World.Steady body) (s : Server τ) (w : World τ φ H) :
    ∃ turn, run (.idle s) w body = .ok turn := by
  have hends : (∃ turn, run (.idle s) w body = .ok turn) ∨
      ∃ f, run (.idle s) w body = .error f ∧ False :=
    run_ends (D := fun w => 0 < w.depth) (fun _ hw => Or.inl (World.exists_exitScope hw))
      (fun w hw => Or.inl (hbody w hw)) s w
  rcases hends with hturn | ⟨_, _, hfalse⟩
  · exact hturn
  · exact hfalse.elim

/-! ## Frames in a row -/

/-- Frames in a row, with nothing else that writes the time record: the driver and the record before
and after them. -/
inductive Passes : Bracket (Server τ) → TimeRecord τ φ → List (Pass τ φ H) →
    Bracket (Server τ) → TimeRecord τ φ → Prop
  /-- No frame. -/
  | nil {b : Bracket (Server τ)} {t : TimeRecord τ φ} : Passes b t [] b t
  /-- A frame, and those after it. -/
  | cons {b b' : Bracket (Server τ)} {t' : TimeRecord τ φ} {p : Pass τ φ H} {ps : List (Pass τ φ H)}
      (keeps : KeepsTime p.body) (runs : run b p.before p.body = .ok p.turn)
      (rest : Passes p.turn.driver p.turn.context.time ps b' t') :
      Passes b p.before.time (p :: ps) b' t'

/-- Frames in a row follow their plans, and leave the driver idle; their invocations run on. -/
theorem Passes.follow {b b' : Bracket (Server τ)} {t t' : TimeRecord τ φ}
    {ps : List (Pass τ φ H)} (h : Passes b t ps b' t') (hidle : ∃ s, b = .idle s)
    (hregular : t.serverTick.Regular) (hclear : t.flags.contains StepFlags.catchUp = false) :
    (∀ p ∈ ps, ∃ is, Follows p is) ∧ (∃ s, b' = .idle s) ∧
      ∃ ns, ∃ is : List (Invocation τ φ), ps.mapM (fun p => p.plan.ticks) = .ok ns ∧
        Advances t.serverTick is t'.serverTick ∧ (is.map fun i => i.batch.toNat).sum = ns.sum ∧
        ((∃ p ∈ ps, p.plan.total ≠ 0) → is ≠ []) := by
  induction h with
  | nil => exact ⟨by simp, hidle, [], [], rfl, .nil, rfl, by simp⟩
  | @cons b b' t' p ps htime hrun _ ih =>
    obtain ⟨s, rfl⟩ := hidle
    obtain ⟨⟨is, hfollows⟩, hfair, hidle⟩ := exists_follows htime hregular hclear hrun
    obtain ⟨hall, hidle', ns, js, hns, hadvances, hsum, hne⟩ :=
      ih hidle (hfollows.advances.regular hregular) hfollows.clear
    refine ⟨fun q hq => ?_, hidle', (is.map fun i => i.batch.toNat).sum :: ns, is ++ js, ?_,
      hfollows.advances.append hadvances, ?_, ?_⟩
    · rcases List.mem_cons.mp hq with rfl | hq
      · exact ⟨is, hfollows⟩
      · exact hall q hq
    · rw [List.mapM_cons, hfollows.ticks_eq_ok hfair, ok_bind, hns]
      rfl
    · rw [List.map_append, List.sum_append, hsum, List.sum_cons]
    · rintro ⟨q, hq, hsome⟩ hnil
      obtain ⟨rfl, rfl⟩ := List.append_eq_nil_iff.mp hnil
      rcases List.mem_cons.mp hq with rfl | hq
      · have hlength := hfollows.length_eq
        rw [List.length_nil] at hlength
        exact hsome (UInt32.toNat_inj.mp hlength.symm)
      · exact hne ⟨q, hq, hsome⟩ rfl

/-- Frames in a row follow their plans, whatever their lengths and the settings are: the tick goes
on by the ticks of all plans, modulo the circle. A frame more returns if its bodies do, and fails
only as they do. -/
theorem passes_follow_plans {s : Server τ} {t t' : TimeRecord τ φ} {ps : List (Pass τ φ H)}
    {b' : Bracket (Server τ)} (hregular : t.serverTick.Regular)
    (hclear : t.flags.contains StepFlags.catchUp = false) (h : Passes (.idle s) t ps b' t') :
    (∀ p ∈ ps, ∃ is, Follows p is) ∧
      (∃ ns, ps.mapM (fun p => p.plan.ticks) = .ok ns ∧
        ((∃ p ∈ ps, p.plan.total ≠ 0) → ∃ i, t'.serverTick.index = .ok i ∧
          i.toNat = (t.serverTick.place + ns.sum) % 2147483648)) ∧
      (∀ (body : World τ φ H → Except Fault (World τ φ H)) (w : World τ φ H),
        (∀ w, ∃ w', body w = .ok w' ∧ w'.depth = w.depth) → ∃ turn, run b' w body = .ok turn) ∧
      ∀ (body : World τ φ H → Except Fault (World τ φ H)) (w : World τ φ H) (f : Fault),
        run b' w body = .error f → f = .scopeUnderflow ∨ ∃ w, body w = .error f := by
  obtain ⟨hall, ⟨s', rfl⟩, ns, is, hns, hadvances, hsum, hne⟩ := h.follow ⟨s, rfl⟩ hregular hclear
  refine ⟨hall, ⟨ns, hns, fun hsome => ?_⟩, fun body w hbody => ?_, fun body w f hf => ?_⟩
  · obtain ⟨i, hi, hplace⟩ := (hadvances.onCircle (hne hsome)).exists_index
    exact ⟨i, hi, by rw [hplace, hadvances.place_eq, hsum]⟩
  · have hends : (∃ turn, run (.idle s') w body = .ok turn) ∨
        ∃ f, run (.idle s') w body = .error f ∧ False := by
      refine run_ends (D := fun w => 0 < w.depth) (fun w hw => Or.inl (World.exists_exitScope hw))
        (fun w hw => ?_) s' w
      obtain ⟨w', hw', hdepth⟩ := hbody w
      exact Or.inl ⟨w', hw', hdepth ▸ hw⟩
    rcases hends with hturn | ⟨_, _, hfalse⟩
    · exact hturn
    · exact hfalse.elim
  · have hends : (∃ turn, run (.idle s') w body = .ok turn) ∨
        ∃ f, run (.idle s') w body = .error f ∧
          (f = .scopeUnderflow ∨ ∃ w, body w = .error f) := by
      refine run_ends (D := fun _ => True) (fun _ _ => Or.inr (Or.inl rfl)) (fun w _ => ?_) s' w
      cases hw : body w with
      | ok w' => exact Or.inl ⟨w', rfl, trivial⟩
      | error f => exact Or.inr ⟨f, rfl, Or.inr ⟨w, hw⟩⟩
    rcases hends with ⟨turn, hturn⟩ | ⟨f', hf', hP⟩
    · cases hturn.symm.trans hf
    · cases hf'.symm.trans hf
      exact hP

end Server

/-- A server in a frame of a tenth of a second. -/
def World.tenth : World Rat Rat (TallyHost Rat) :=
  (World.start Config.sixty TallyHost.empty).beginFrame (1 / 10)

namespace Server

/-- Six ticks are due in a tenth of a second, and make four batches. -/
theorem passes_follow_plans_client : ∃ turn is,
    run (.idle start) World.tenth .ok = .ok turn ∧ Follows ⟨World.tenth, .ok, turn⟩ is ∧
      is.map Invocation.batch = [2, 2, 1, 1] ∧ turn.context.time.serverTick.index = .ok 6 := by
  have htold : (run (.idle start) World.tenth .ok).toOption.map (fun t => t.driver.state.plan) =
      some ⟨4, 2, 2⟩ := by decide +kernel
  cases hrun : run (.idle start) World.tenth .ok with
  | error f =>
    rw [hrun] at htold
    cases htold
  | ok turn =>
    let p : Pass Rat Rat (TallyHost Rat) := ⟨World.tenth, .ok, turn⟩
    have hplan : p.plan = ⟨4, 2, 2⟩ := by
      rw [hrun] at htold
      exact Option.some.inj htold
    have hkeeps : KeepsTime p.body := by
      rintro w w' ⟨⟩
      rfl
    have hpasses : Passes (.idle start) World.tenth.time [p] turn.driver turn.context.time :=
      .cons hkeeps hrun .nil
    obtain ⟨hall, ⟨ns, hns, hindex⟩, -, -⟩ :=
      passes_follow_plans (Or.inl rfl) (by decide) hpasses
    obtain ⟨is, hfollows⟩ := hall p (List.mem_singleton_self p)
    obtain ⟨i, hi, hplace⟩ := hindex ⟨p, List.mem_singleton_self p, by rw [hplan]; decide⟩
    have hlengths := hfollows.lengths_eq
    rw [hplan] at hlengths
    rw [List.mapM_cons, hplan] at hns
    obtain rfl : [6] = ns := Except.ok.inj hns
    obtain rfl : i = 6 := UInt32.toNat_inj.mp hplace
    exact ⟨turn, is, rfl, hfollows, (Except.ok.inj hlengths).symm, hi⟩

end Server

end Metronome
