import Metronome.Ghosts
import Metronome.Proofs.Outcome

/-!
# Predicted entities that join

An invocation that starts at a valid tick lets entities join without a fault: those without state,
and those whose state is not newer than the tick. Entities that were all stopped before, and join at
one start after another, take part exactly from the first start at which they are due, as long as
what is due once stays due (`joined_eligible`).
-/

namespace Metronome

open Tick

namespace Ghost

/-- Whether the entity has nothing to wait for at a tick. -/
def isDue (g : Ghost) (tick : Tick) : Bool :=
  !g.base.isValid || decide (g.base.distance tick ≤ 0)

/-- The entity after it may have joined at a tick. -/
def joined (g : Ghost) (tick : Tick) : Ghost :=
  if g.isDue tick then { g with simulate := true } else g

theorem joinsAt_eq_ok (g : Ghost) {tick : Tick} (ht : tick.isValid = true) :
    g.joinsAt tick = .ok (g.isDue tick) := by
  unfold joinsAt isDue
  by_cases hv : g.base.isValid = true
  · simp [hv, isNewerThan_eq_ok hv ht, ← decide_not]
  · simp [hv]

theorem enableFrom_eq_ok (g : Ghost) {tick : Tick} (ht : tick.isValid = true) :
    g.enableFrom tick = .ok (g.joined tick) := by
  unfold enableFrom joined
  rw [joinsAt_eq_ok g ht, ok_bind]
  cases g.isDue tick <;> rfl

/-- The entity as one that takes part exactly if it is due at a tick. -/
def eligible (g : Ghost) (tick : Tick) : Ghost :=
  { g with simulate := g.isDue tick }

/-- An entity that was stopped takes part if it is due where it joins. -/
theorem joined_stopped (g : Ghost) (tick : Tick) :
    ({ g with simulate := false } : Ghost).joined tick = g.eligible tick := by
  have hdue : ({ g with simulate := false } : Ghost).isDue tick = g.isDue tick := rfl
  unfold joined eligible
  rw [hdue]
  cases g.isDue tick <;> rfl

/-- An entity that is due once and stays due takes part from then on. -/
theorem joined_eligible (g : Ghost) {tick later : Tick}
    (h : g.isDue tick = true → g.isDue later = true) :
    (g.eligible tick).joined later = g.eligible later := by
  have hdue : (g.eligible tick).isDue later = g.isDue later := rfl
  unfold joined
  rw [hdue]
  cases hlater : g.isDue later
  · have hearlier : g.isDue tick = false := by
      rw [← Bool.not_eq_true]
      exact fun hnow => absurd (h hnow) (by simp [hlater])
    simp [eligible, hearlier, hlater]
  · simp [eligible, hlater]

end Ghost

namespace Ghosts

/-- The entities after those that are due have joined. -/
def joined (g : Ghosts) (tick : Tick) : Ghosts :=
  g.map fun ghost => ghost.joined tick

theorem enableFrom_eq_ok (g : Ghosts) {tick : Tick} (ht : tick.isValid = true) :
    g.enableFrom tick = .ok (g.joined tick) := by
  have hmap : g.entries.mapM (fun e => do return (e.1, ← e.2.enableFrom tick)) =
      .ok (g.entries.map fun e => (e.1, e.2.joined tick)) :=
    mapM_eq_ok fun e _ => by simp [Ghost.enableFrom_eq_ok _ ht]
  show (do return ⟨← g.entries.mapM fun e => do return (e.1, ← e.2.enableFrom tick)⟩ :
    Except Fault Ghosts) = _
  rw [hmap]
  rfl

section ApplySnapshot

variable {g : Ghosts} {id : EntityId} {tick : Tick} {history : History}

/-- State of no tick is refused, whichever entity it is for. -/
theorem applySnapshot_of_invalid (h : tick.isValid = false) :
    g.applySnapshot id tick history = .error .invalidTick := by
  rw [applySnapshot, h]
  rfl

/-- State for an entity that there is not is refused. -/
theorem applySnapshot_of_absent (h : tick.isValid = true) (hid : g.get? id = none) :
    g.applySnapshot id tick history = .error (.unknown id) := by
  rw [applySnapshot, h, hid]
  rfl

/-- Other state reaches the entity and the history. -/
theorem applySnapshot_of_present (h : tick.isValid = true) (hid : g.get? id ≠ none) :
    g.applySnapshot id tick history =
      .ok (g.modify (fun ghost => { ghost with base := tick }) id, history.recordApplied tick) := by
  rw [applySnapshot, h, if_neg (by decide), if_neg (mt Option.isNone_iff_eq_none.mp hid)]

end ApplySnapshot

/-- State that is accepted is recorded. -/
theorem history_of_applySnapshot {g g' : Ghosts} {id : EntityId} {tick : Tick}
    {before after : History} (h : g.applySnapshot id tick before = .ok (g', after)) :
    after = before.recordApplied tick := by
  unfold applySnapshot at h
  split at h
  · cases h
  split at h
  · cases h
  · cases h
    rfl

/-! ## Who takes part -/

/-- The entities with those taking part that are due at a tick, and no others. -/
def eligible (g : Ghosts) (tick : Tick) : Ghosts :=
  g.map fun ghost => ghost.eligible tick

/-- Whether an entity takes part in the next invocation. -/
def runs (g : Ghosts) (id : EntityId) : Bool :=
  (g.get? id).any Ghost.simulate

/-- A change of every entity is a change of each. -/
theorem get?_map (f : Ghost → Ghost) (g : Ghosts) (id : EntityId) :
    (g.map f).get? id = (g.get? id).map f := by
  obtain ⟨entries⟩ := g
  show (entries.map fun e => (e.1, f e.2)).lookup id = (entries.lookup id).map f
  induction entries with
  | nil => rfl
  | cons e entries ih =>
    rw [List.map_cons, List.lookup_cons, List.lookup_cons]
    cases id == e.1
    · exact ih
    · rfl

/-- A new entity is found under its identifier. -/
theorem get?_spawn {g : Ghosts} {id : EntityId} (h : g.get? id = none) (other : EntityId) :
    (g.spawn id).get? other = if other = id then some Ghost.fresh else g.get? other := by
  have happend : (g.spawn id).get? other =
      (g.get? other).or (if other == id then some Ghost.fresh else none) := by
    rw [get?, spawn, List.lookup_append, List.lookup_cons]
    cases other == id <;> rfl
  rw [happend]
  by_cases heq : other = id
  · rw [heq, h, if_pos rfl, beq_self_eq_true, if_pos rfl, Option.none_or]
  · rw [if_neg heq, if_neg (mt beq_iff_eq.mp heq), Option.or_none]

/-- An entity that was removed is not found, and all others are. -/
theorem get?_despawn (g : Ghosts) (id other : EntityId) :
    (g.despawn id).get? other = if other = id then none else g.get? other := by
  obtain ⟨entries⟩ := g
  show (entries.filter fun e => e.1 != id).lookup other =
    if other = id then none else entries.lookup other
  induction entries with
  | nil => simp
  | cons e entries ih =>
    rw [List.lookup_cons, List.filter_cons]
    by_cases he : e.1 = id
    · rw [if_neg (by simp [he]), ih, he]
      split
      case isTrue => rfl
      case isFalse heq => rw [beq_false_of_ne heq]
    · rw [if_pos (by simp [he]), List.lookup_cons, ih]
      cases hother : other == e.1
      · rfl
      · show some e.2 = if other = id then none else some e.2
        rw [if_neg fun heq => he ((eq_of_beq hother).symm.trans heq)]

/-- A change of one entity is seen under its identifier only. -/
theorem get?_modify (f : Ghost → Ghost) (g : Ghosts) (id other : EntityId) :
    (g.modify f id).get? other = if other = id then (g.get? id).map f else g.get? other := by
  obtain ⟨entries⟩ := g
  show (entries.map fun e => (e.1, if e.1 = id then f e.2 else e.2)).lookup other =
    if other = id then (entries.lookup id).map f else entries.lookup other
  induction entries with
  | nil => simp
  | cons e entries ih =>
    rw [List.map_cons, List.lookup_cons, List.lookup_cons, List.lookup_cons, ih]
    by_cases heq : other = id
    · subst heq
      rw [if_pos rfl, if_pos rfl]
      cases hother : other == e.1
      · rfl
      · rw [if_pos (eq_of_beq hother).symm]
        rfl
    · rw [if_neg heq, if_neg heq]
      cases hother : other == e.1
      · rfl
      · rw [if_neg fun hid => heq ((eq_of_beq hother).trans hid)]

theorem map_map (f f' : Ghost → Ghost) (g : Ghosts) : (g.map f).map f' = g.map (f' ∘ f) := by
  simp [map, Function.comp_def]

theorem map_congr {f f' : Ghost → Ghost} {g : Ghosts} (h : ∀ e ∈ g.entries, f e.2 = f' e.2) :
    g.map f = g.map f' := by
  unfold map
  congr 1
  exact List.map_congr_left fun e he => congrArg (Prod.mk e.1) (h e he)

theorem mem_of_get? {g : Ghosts} {id : EntityId} {ghost : Ghost} (h : g.get? id = some ghost) :
    (id, ghost) ∈ g.entries := by
  obtain ⟨before, after, hsplit, -⟩ := List.lookup_eq_some_iff.mp h
  exact hsplit ▸ List.mem_append_right before List.mem_cons_self

theorem not_isEmpty_of_mem {g : Ghosts} {e : EntityId × Ghost} (h : e ∈ g.entries) :
    g.isEmpty = false := by
  cases hentries : g.entries with
  | nil => simp [hentries] at h
  | cons => simp [isEmpty, hentries]

theorem runs_eligible {g : Ghosts} {id : EntityId} {ghost : Ghost} (h : g.get? id = some ghost)
    (tick : Tick) : (g.eligible tick).runs id = ghost.isDue tick := by
  simp [runs, eligible, get?_map, h, Ghost.eligible]

/-- After all were stopped, exactly those take part that are due where the others join. -/
theorem joined_disableAll (g : Ghosts) (tick : Tick) :
    g.disableAll.joined tick = g.eligible tick := by
  unfold joined disableAll
  rw [map_map]
  exact map_congr fun e _ => e.2.joined_stopped tick

/-- At a later start those join that are due by then; the others take part already. -/
theorem joined_eligible {g : Ghosts} {tick later : Tick}
    (h : ∀ e ∈ g.entries, e.2.isDue tick = true → e.2.isDue later = true) :
    (g.eligible tick).joined later = g.eligible later := by
  unfold joined eligible
  rw [map_map]
  exact map_congr fun e he => e.2.joined_eligible (h e he)

/-- Who took part does not matter any more once all do. -/
theorem enableAll_map {f : Ghost → Ghost} (hf : ∀ ghost, (f ghost).base = ghost.base) (g : Ghosts) :
    (g.map f).enableAll = g.enableAll := by
  unfold enableAll
  rw [map_map]
  exact map_congr fun e _ => by simp [hf]

theorem enableAll_disableAll (g : Ghosts) : g.disableAll.enableAll = g.enableAll :=
  enableAll_map (f := fun ghost => { ghost with simulate := false }) (fun _ => rfl) g

theorem enableAll_joined (g : Ghosts) (tick : Tick) : (g.joined tick).enableAll = g.enableAll := by
  refine enableAll_map (fun ghost => ?_) g
  unfold Ghost.joined
  split <;> rfl

theorem enableAll_enableAll (g : Ghosts) : g.enableAll.enableAll = g.enableAll :=
  enableAll_map (f := fun ghost => { ghost with simulate := true }) (fun _ => rfl) g

end Ghosts

end Metronome
