import Metronome.Prediction.Setup
import Metronome.Proofs.Confirmed
import Metronome.Proofs.TickSet
import Mathlib.Data.Set.Basic

/-!
# The replay points of a burst

The plan of a burst adds ticks to a set, walks along the circle to pick up inputs, sorts, and
drops what is out of reach. `exists_replayPoints` says what comes out, for ticks anywhere on
the circle: the members of `pointSet`, in a list that is strictly descending in the distance
from the confirmed tick.
-/

namespace Metronome.Prediction

open Tick

variable {φ : Type} [Fraction φ]

/-- The ticks that a replay may have to start from: those whose state was applied, the target, and
the last full tick if the target is ahead of it. -/
def basis (applied : TickSet) (lastFull target : Tick) : Set Tick :=
  {t | t ∈ applied.ticks ∨ t = target ∨ t = lastFull ∧ lastFull.isValid = true ∧
    0 < target.distance lastFull}

/-- A member of the basis that no other lies behind. -/
def IsOldest (confirmed : Tick) (basis : Set Tick) (oldest : Tick) : Prop :=
  oldest ∈ basis ∧ ∀ t ∈ basis, confirmed.distance t ≤ confirmed.distance oldest

/-- Where new inputs begin to matter: the oldest tick to start from, or the edge of the history if
the tick lies past it. -/
def edge (confirmed oldest : Tick) (history : UInt32) : Tick :=
  if confirmed.distance oldest ≤ history.toNat then oldest else confirmed.shiftBack history

/-- The replay points: of the basis, what is neither ahead of the target nor past the history; and
the tick before each new input after the edge and up to the target. -/
def pointSet (confirmed : Confirmed φ) (history : UInt32) (basis : Set Tick) (inputs : TickSet)
    (oldest : Tick) : Set Tick :=
  {t | t ∈ basis ∧ t.distance confirmed.target ≤ 0 ∧ confirmed.tick.distance t ≤ history.toNat} ∪
    {t | ∃ n ∈ inputs.ticks, 0 < n.distance (edge confirmed.tick oldest history) ∧
      n.distance confirmed.target ≤ 0 ∧ t = n.shiftBack 1}

/-- The members of the basis. -/
def basisTicks (applied : TickSet) (lastFull target : Tick) : List Tick :=
  target :: applied.ticks ++
    if lastFull.isValid = true ∧ 0 < target.distance lastFull then [lastFull] else []

theorem mem_basisTicks {applied : TickSet} {lastFull target t : Tick} :
    t ∈ basisTicks applied lastFull target ↔ t ∈ basis applied lastFull target := by
  unfold basisTicks basis
  split <;> grind

/-- The replay points in no particular order, for a basis with these members. -/
def pointTicks (confirmed : Confirmed φ) (history : UInt32) (basis : List Tick) (inputs : TickSet)
    (oldest : Tick) : List Tick :=
  (basis.filter fun t =>
      t.distance confirmed.target ≤ 0 ∧ confirmed.tick.distance t ≤ history.toNat) ++
    (inputs.ticks.filter fun n => 0 < n.distance (edge confirmed.tick oldest history) ∧
      n.distance confirmed.target ≤ 0).map (·.shiftBack 1)

theorem mem_pointTicks {confirmed : Confirmed φ} {history : UInt32} {applied inputs : TickSet}
    {lastFull oldest t : Tick} :
    t ∈ pointTicks confirmed history (basisTicks applied lastFull confirmed.target) inputs oldest ↔
      t ∈ pointSet confirmed history (basis applied lastFull confirmed.target) inputs oldest := by
  simp only [pointTicks, pointSet, List.mem_append, List.mem_filter, List.mem_map, mem_basisTicks,
    decide_eq_true_eq, Set.mem_union, Set.mem_ofPred_eq]
  grind

/-! ## The set to start from -/

theorem targetOf_eq_ok {c : Confirmed φ} (hc : c.tick.OnCircle) : targetOf c = .ok c.target := by
  unfold targetOf Confirmed.target Tick.prev
  split
  · exact rewind_eq_ok hc.isValid 1
  · rfl

/-- Without a last full tick the target takes its place. -/
def seeded (lastFull target : Tick) : Tick :=
  if lastFull.isValid then lastFull else target

theorem onCircle_seeded {lastFull target : Tick} (hl : lastFull.Regular) (ht : target.OnCircle) :
    (seeded lastFull target).OnCircle := by
  unfold seeded
  split
  · exact hl.onCircle ‹_›
  · exact ht

theorem onCircle_of_mem_basis {applied : TickSet} (ha : applied.OnCircle) {lastFull target : Tick}
    (hl : lastFull.Regular) (ht : target.OnCircle) {t : Tick}
    (h : t ∈ basis applied lastFull target) :
    t.OnCircle := by
  rcases h with h | rfl | ⟨rfl, hv, -⟩
  · exact ha t h
  · exact ht
  · exact hl.onCircle hv

theorem exists_withTarget {applied : TickSet} (ha : applied.OnCircle) {lastFull target : Tick}
    (hl : lastFull.Regular) (ht : target.OnCircle) :
    ∃ start : TickSet, withTarget applied lastFull target = .ok (start, seeded lastFull target) ∧
      start.OnCircle ∧ ∀ t, t ∈ start.ticks ↔ t ∈ basis applied lastFull target := by
  have hmem : ∀ t, t ∈ (applied.insert target).ticks ↔ t = target ∨ t ∈ applied.ticks := fun t =>
    TickSet.mem_insert ht.isValid
  by_cases hv : lastFull.isValid = true
  · have hlc := hl.onCircle hv
    by_cases hnew : 0 < target.distance lastFull
    · refine ⟨(applied.insert target).insert lastFull, ?_, (ha.insert ht).insert hlc, fun t => ?_⟩
      · simp [withTarget, seeded, hv, isNewerThan_eq_ok ht.isValid hv, hnew]
      · rw [TickSet.mem_insert hv, hmem]
        simp only [basis, Set.mem_ofPred_eq, hv, hnew]
        grind
    · refine ⟨applied.insert target, ?_, ha.insert ht, fun t => ?_⟩
      · simp [withTarget, seeded, hv, isNewerThan_eq_ok ht.isValid hv, hnew]
      · rw [hmem]
        simp only [basis, Set.mem_ofPred_eq, hv, hnew]
        grind
  · refine ⟨applied.insert target, ?_, ha.insert ht, fun t => ?_⟩
    · simp [withTarget, seeded, hv]
    · rw [hmem]
      simp only [basis, Set.mem_ofPred_eq, hv]
      grind

/-! ## The walk over inputs -/

/-- The horizon is the history, for distances on the circle. -/
theorem le_horizon_iff {t u : Tick} {history : UInt32} :
    t.distance u ≤ horizon history ↔ t.distance u ≤ history.toNat := by
  have := distance_lt t u
  unfold horizon
  omega

theorem onCircle_edge {c o : Tick} (hc : c.OnCircle) (ho : o.OnCircle) (history : UInt32) :
    (edge c o history).OnCircle := by
  unfold edge
  split
  · exact ho
  · exact hc.shiftBack history

theorem distance_edge {c o : Tick} (hc : c.OnCircle) (history : UInt32) :
    c.distance (edge c o history) = min (c.distance o) history.toNat := by
  have hself := distance_self c
  have hlt := distance_lt c o
  unfold edge
  split
  · omega
  · rw [distance_shiftBack_right hc hc (by omega), hself]
    omega

theorem firstInput_eq_ok {c o : Tick} (hc : c.OnCircle) (ho : o.OnCircle) (history : UInt32) :
    firstInput c o history = .ok ((edge c o history).shift 1) := by
  have hedge := onCircle_edge hc ho history
  unfold firstInput
  rw [since_eq_ok hc.isValid ho.isValid, ok_bind]
  by_cases h : c.distance o ≤ history.toNat
  · have hnot : ¬c.distance o > horizon history := by
      have := (le_horizon_iff (t := c) (u := o)).mpr h
      omega
    rw [if_neg hnot, pure_eq_ok, ok_bind, edge, if_pos h]
    exact advance_eq_ok ho.isValid 1
  · have hpast : c.distance o > horizon history := by
      have := mt (le_horizon_iff (t := c) (u := o)).mp h
      omega
    rw [if_pos hpast, rewind_eq_ok hc.isValid, ok_bind, edge, if_neg h]
    exact advance_eq_ok (hc.shiftBack history).isValid 1

theorem walkLength_eq {first last : Tick} (hf : first.OnCircle) (hl : last.OnCircle) :
    walkLength first last = (1 - first.distance last).toNat := by
  unfold walkLength
  rw [bmod_raw_sub hf hl]
  congr 1
  omega

theorem onWalk_iff {first t : Tick} (hf : first.OnCircle) (ht : t.OnCircle) {length : Nat}
    (hlen : length ≤ 1073741824) :
    onWalk first length t = true ↔ 0 ≤ t.distance first ∧ t.distance first < length := by
  obtain ⟨k, hk⟩ := exists_raw_sub ht hf
  have := distance_lt t first
  have := le_distance t first
  have hsub := UInt32.toNat_sub t.raw first.raw
  have htlt := t.raw.toNat_lt
  have hflt := first.raw.toNat_lt
  have h2 : (2 : UInt32).toNat = 2 := rfl
  have h0 : (0 : UInt32).toNat = 0 := rfl
  simp only [onWalk, Bool.and_eq_true, beq_iff_eq, decide_eq_true_eq, ← UInt32.toNat_inj,
    UInt32.toNat_mod, h2, h0]
  omega

theorem onWalk_invalid {first : Tick} (hf : first.OnCircle) (length : Nat) :
    onWalk first length Tick.invalid = false := by
  have hodd := onCircle_iff.mp hf
  have hsub := UInt32.toNat_sub 0 first.raw
  have hflt := first.raw.toNat_lt
  have h2 : (2 : UInt32).toNat = 2 := rfl
  have h0 : (0 : UInt32).toNat = 0 := rfl
  have hne : ¬(Tick.invalid.raw - first.raw) % 2 = 0 := by
    simp only [Tick.invalid, ← UInt32.toNat_inj, UInt32.toNat_mod, h2, h0] at hsub ⊢
    omega
  simp [onWalk, hne]

/-- From the tick after the edge, the walk passes an input that is newer than the edge and not
ahead of the target. -/
theorem onWalk_iff_newer {e target n : Tick} (he : e.OnCircle) (ht : target.OnCircle)
    (hn : n.OnCircle) (hle : 0 ≤ target.distance e) :
    onWalk (e.shift 1) (walkLength (e.shift 1) target) n = true ↔
      0 < n.distance e ∧ n.distance target ≤ 0 := by
  have h1 : (1 : UInt32).toNat = 1 := rfl
  have hfirst := he.shift 1
  have hte := distance_comm ht he (by omega)
  have := distance_lt target e
  have hft := distance_shift_left (n := 1) he ht (by omega)
  have hlength := walkLength_eq hfirst ht
  -- around three ticks the distances add up to whole turns; their bounds say how many
  obtain ⟨k, hk⟩ := exists_distance_shift he hn 1
  obtain ⟨k', hk'⟩ := distance_triangle hn hfirst he
  obtain ⟨k'', hk''⟩ := distance_triangle hn ht he
  have hself := distance_self e
  have hshift := distance_shift_left (n := 1) he he (by omega)
  have := distance_lt n e
  have := le_distance n e
  have := distance_lt n (e.shift 1)
  have := le_distance n (e.shift 1)
  have := distance_lt n target
  have := le_distance n target
  rw [onWalk_iff hfirst hn (by omega)]
  omega

/-- The walk from the edge to the target picks up the inputs after the edge and up to the target. -/
theorem exists_inputPoints {inputs : TickSet} (hi : inputs.OnCircle) {e target : Tick}
    (he : e.OnCircle) (ht : target.OnCircle) (hle : 0 ≤ target.distance e) :
    ∃ ts, inputPoints inputs (e.shift 1) target = .ok ts ∧
      ∀ t, t ∈ ts ↔ ∃ n ∈ inputs.ticks, 0 < n.distance e ∧ n.distance target ≤ 0 ∧
      t = n.shiftBack 1 := by
  refine ⟨(inputs.ticks.filter (onWalk (e.shift 1) (walkLength (e.shift 1) target))).map
    (·.shiftBack 1), ?_, fun t => ?_⟩
  · simp [inputPoints, ht.isValid, onWalk_invalid (he.shift 1)]
  · simp only [List.mem_map, List.mem_filter]
    constructor
    · rintro ⟨n, ⟨hn, hw⟩, rfl⟩
      obtain ⟨hnew, hold⟩ := (onWalk_iff_newer he ht (hi n hn) hle).mp hw
      exact ⟨n, hn, hnew, hold, rfl⟩
    · rintro ⟨n, hn, hnew, hold, rfl⟩
      exact ⟨n, ⟨hn, (onWalk_iff_newer he ht (hi n hn) hle).mpr ⟨hnew, hold⟩⟩, rfl⟩

/-! ## The points in reach -/

/-- The two tests on a point, for ticks on the circle. -/
def inReach (confirmed target : Tick) (history : UInt32) (t : Tick) : Bool :=
  decide (t.distance target ≤ 0 ∧ (t = target ∨ confirmed.distance t ≤ history.toNat))

theorem reachable_eq_ok {c target t : Tick} (hc : c.OnCircle) (hg : target.OnCircle)
    (ht : t.OnCircle) (history : UInt32) :
    reachable c target (horizon history) t = .ok (inReach c target history t) := by
  unfold reachable inReach
  rw [isNewerThan_eq_ok ht.isValid hg.isValid, ok_bind]
  by_cases hnew : t.distance target > 0
  · have hnot : ¬t.distance target ≤ 0 := by omega
    simp [hnew, hnot]
  · have hold : t.distance target ≤ 0 := by omega
    by_cases heq : t = target
    · simp [heq]
    · simp [hnew, hold, heq, since_eq_ok hc.isValid ht.isValid, le_horizon_iff]

section Plan

variable {c : Confirmed φ} {history : UInt32} {applied inputs : TickSet} {lastFull oldest : Tick}

/-- The edge lies between the target and the end of the history. -/
theorem target_distance_edge (hc : c.tick.OnCircle) (ho : oldest.OnCircle) (hh : 1 ≤ history.toNat)
    (hold : c.lag ≤ c.tick.distance oldest) :
    c.target.distance (edge c.tick oldest history) =
      c.tick.distance (edge c.tick oldest history) - c.lag ∧
      c.lag ≤ c.tick.distance (edge c.tick oldest history) := by
  have hdist := distance_edge (o := oldest) hc history
  have := c.lag_nonneg
  have := c.lag_le_one
  exact ⟨Confirmed.target_distance hc (onCircle_edge hc ho history) (by omega), by omega⟩

/-- The point before an input that matters lies behind the target, and not past the oldest tick to
start from or the history. -/
theorem inputPoint_reach (hc : c.tick.OnCircle) (ho : oldest.OnCircle) (hh : 1 ≤ history.toNat)
    (hold : c.lag ≤ c.tick.distance oldest) {n : Tick} (hn : n.OnCircle)
    (hnew : 0 < n.distance (edge c.tick oldest history)) (hle : n.distance c.target ≤ 0) :
    (n.shiftBack 1).distance c.target < 0 ∧ c.lag < c.tick.distance (n.shiftBack 1) ∧
      c.tick.distance (n.shiftBack 1) ≤ min (c.tick.distance oldest) history.toNat := by
  have hg := Confirmed.onCircle_target hc
  have he := onCircle_edge hc ho history
  have h1 : (1 : UInt32).toNat = 1 := rfl
  obtain ⟨hge, hlo⟩ := target_distance_edge hc ho hh hold
  have hdist := distance_edge (o := oldest) hc history
  have hlag := Confirmed.distance_target hc
  have := c.lag_nonneg
  have := c.lag_le_one
  have := distance_lt c.tick (edge c.tick oldest history)
  have := distance_lt n (edge c.tick oldest history)
  have := le_distance n c.target
  have heg := distance_comm hg he (by omega)
  have hen := distance_comm hn he (by omega)
  obtain ⟨k, hk⟩ := distance_triangle hn hg he
  -- counted from the edge, the input lies between it and the target
  have hgn := distance_eq_sub he hg hn (by omega) (by omega)
  have hback := distance_shiftBack_right (n := 1) hg hn (by omega)
  have hcomm := distance_comm hg (hn.shiftBack 1) (by omega)
  have hgc := distance_comm hc hg (by omega)
  have hcn := distance_eq_sub hg hc (hn.shiftBack 1) (by omega) (by omega)
  omega

/-- Of the basis and the points before inputs, what is in reach is the set of replay points. -/
theorem mem_pointSet_iff (hc : c.tick.OnCircle) (hh : 1 ≤ history.toNat) (hi : inputs.OnCircle)
    (ho : oldest.OnCircle) (hold : c.lag ≤ c.tick.distance oldest) (b : Set Tick) (t : Tick) :
    t ∈ pointSet c history b inputs oldest ↔
      (t ∈ b ∨ ∃ n ∈ inputs.ticks, 0 < n.distance (edge c.tick oldest history) ∧
        n.distance c.target ≤ 0 ∧
        t = n.shiftBack 1) ∧ inReach c.tick c.target history t = true := by
  have hlag := Confirmed.distance_target hc
  have hlag1 := c.lag_le_one
  rw [inReach, decide_eq_true_eq]
  simp only [pointSet, Set.mem_union, Set.mem_ofPred_eq]
  constructor
  · rintro (⟨hb, hle, hreach⟩ | ⟨n, hn, hnew, hle, rfl⟩)
    · exact ⟨Or.inl hb, hle, Or.inr hreach⟩
    · obtain ⟨hbehind, -, hreach⟩ := inputPoint_reach hc ho hh hold (hi n hn) hnew hle
      exact ⟨Or.inr ⟨n, hn, hnew, hle, rfl⟩, by omega, Or.inr (by omega)⟩
  · rintro ⟨hb | hn, hle, hreach⟩
    · refine Or.inl ⟨hb, hle, ?_⟩
      rcases hreach with rfl | hreach
      · omega
      · exact hreach
    · exact Or.inr hn

/-- What the plan makes of a set of applied ticks and a set of inputs. -/
theorem exists_replayPoints (hc : c.tick.OnCircle) (hh : 1 ≤ history.toNat) (ha : applied.OnCircle)
    (hi : inputs.OnCircle) (hl : lastFull.Regular) :
    ∃ start oldest points, withTarget applied lastFull c.target =
      .ok (start, seeded lastFull c.target) ∧
      replayPoints c.tick c.target history start inputs = .ok (some points) ∧
      IsOldest c.tick (basis applied lastFull c.target) oldest ∧
      (∀ t, t ∈ points ↔ t ∈ pointSet c history (basis applied lastFull c.target) inputs oldest) ∧
      (∀ t ∈ points, t.OnCircle) ∧
      points.Pairwise fun t u => c.tick.distance u < c.tick.distance t := by
  have hg := Confirmed.onCircle_target hc
  have hlag := Confirmed.distance_target hc
  obtain ⟨start, hwith, hs, hmem⟩ := exists_withTarget ha hl hg
  have hgs : c.target ∈ start.ticks := (hmem c.target).mpr (Or.inr (Or.inl rfl))
  obtain ⟨o, ho, hos, hmax⟩ := hs.exists_oldest hc hgs
  have hoc := hs o hos
  have hold : c.lag ≤ c.tick.distance o := hlag ▸ hmax c.target hgs
  obtain ⟨hge, hlo⟩ := target_distance_edge hc hoc hh hold
  obtain ⟨ts, hts, hmemts⟩ := exists_inputPoints hi (onCircle_edge hc hoc history) hg (by omega)
  have htsc : ∀ t ∈ ts, t.OnCircle := by
    intro t ht
    obtain ⟨n, hn, -, -, rfl⟩ := (hmemts t).mp ht
    exact (hi n hn).shiftBack 1
  have hall : ∀ t, t ∈ (start.insertAll ts).ticks ↔ t ∈ start.ticks ∨ t ∈ ts := fun t =>
    TickSet.mem_insertAll fun u hu => (htsc u hu).isValid
  have hallc : (start.insertAll ts).OnCircle := fun t ht => ((hall t).mp ht).elim (hs t) (htsc t)
  obtain ⟨sorted, hsorted, hmemsorted, hdesc⟩ := hallc.exists_oldestFirst hc
  have hsortedc : ∀ t ∈ sorted, t.OnCircle := fun t ht => hallc t ((hmemsorted t).mp ht)
  have hfilter := filterM_eq_ok (l := sorted) fun t ht =>
    reachable_eq_ok hc hg (hsortedc t ht) history
  refine ⟨start, o, sorted.filter (inReach c.tick c.target history), hwith, ?_,
    ⟨(hmem o).mp hos, fun t ht => hmax t ((hmem t).mpr ht)⟩, fun t => ?_,
    fun t ht => hsortedc t (List.mem_filter.mp ht).1, hdesc.filter _⟩
  · unfold replayPoints
    rw [ho, ok_bind]
    simp only [firstInput_eq_ok hc hoc, ok_bind, hts, hsorted, hfilter, pure_eq_ok]
  · rw [mem_pointSet_iff hc hh hi hoc hold, List.mem_filter, hmemsorted, hall, hmem, hmemts]

end Plan

end Metronome.Prediction
