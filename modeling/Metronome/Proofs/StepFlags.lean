import Metronome.StepFlags

/-!
# Reading flags back

What a flag reads after others were set or cleared: a write to some bits leaves every disjoint
set of bits as it was.
-/

namespace Metronome.StepFlags

variable {f : StepFlags} {bits other : UInt8}

theorem eq_of_getLsbD {x y : UInt8} (h : ∀ i < 8, x.toBitVec.getLsbD i = y.toBitVec.getLsbD i) :
    x = y :=
  UInt8.toBitVec_inj.mp (BitVec.eq_of_getLsbD_eq h)

/-- Two sets of bits that share none share none at any position. -/
theorem getLsbD_of_disjoint (h : bits &&& other = 0) (i : Nat) :
    (bits.toBitVec.getLsbD i && other.toBitVec.getLsbD i) = false := by
  have := congrArg (fun x : UInt8 => x.toBitVec.getLsbD i) h
  simpa using this

@[simp] theorem contains_insert_self (f : StepFlags) (bits : UInt8) :
    (f.insert bits).contains bits = true := by
  simp only [contains, insert, beq_iff_eq]
  apply eq_of_getLsbD
  intro i hi
  cases hb : bits.toBitVec.getLsbD i <;> simp [hb]

theorem contains_insert (h : bits &&& other = 0) :
    (f.insert bits).contains other = f.contains other := by
  have heq : (f.bits ||| bits) &&& other = f.bits &&& other := by
    apply eq_of_getLsbD
    intro i hi
    have := getLsbD_of_disjoint h i
    cases hb : bits.toBitVec.getLsbD i <;> cases ho : other.toBitVec.getLsbD i <;> simp_all
  simp only [contains, insert, heq]

theorem contains_remove (h : bits &&& other = 0) :
    (f.remove bits).contains other = f.contains other := by
  have heq : (f.bits &&& ~~~bits) &&& other = f.bits &&& other := by
    apply eq_of_getLsbD
    intro i hi
    have := getLsbD_of_disjoint h i
    cases hb : bits.toBitVec.getLsbD i <;> cases ho : other.toBitVec.getLsbD i <;> simp_all
  simp only [contains, remove, heq]

theorem contains_remove_of_mem (h : bits &&& other = other) (hne : other ≠ 0) :
    (f.remove bits).contains other = false := by
  have heq : (f.bits &&& ~~~bits) &&& other = 0 := by
    apply eq_of_getLsbD
    intro i hi
    have : (bits.toBitVec.getLsbD i && other.toBitVec.getLsbD i) = other.toBitVec.getLsbD i := by
      simpa using congrArg (fun x : UInt8 => x.toBitVec.getLsbD i) h
    cases hb : bits.toBitVec.getLsbD i <;> cases ho : other.toBitVec.getLsbD i <;> simp_all
  simpa only [contains, remove, heq, beq_eq_false_iff_ne, ne_eq] using fun h0 => hne h0.symm

theorem contains_set (h : bits &&& other = 0) (value : Bool) :
    (f.set bits value).contains other = f.contains other := by
  cases value
  · exact contains_remove h
  · exact contains_insert h

theorem contains_set_self (hne : bits ≠ 0) (value : Bool) :
    (f.set bits value).contains bits = value := by
  cases value
  · exact contains_remove_of_mem (UInt8.and_self) hne
  · exact contains_insert_self f bits

/-! ## Clearing a mask -/

variable {mask : UInt8}

/-- Bits that are cleared anyway may be set before. -/
theorem remove_insert_of_mem (h : mask &&& bits = bits) :
    (f.insert bits).remove mask = f.remove mask := by
  refine congrArg StepFlags.mk (eq_of_getLsbD fun i hi => ?_)
  have : (mask.toBitVec.getLsbD i && bits.toBitVec.getLsbD i) = bits.toBitVec.getLsbD i := by
    simpa using congrArg (fun x : UInt8 => x.toBitVec.getLsbD i) h
  cases hb : bits.toBitVec.getLsbD i <;> cases hm : mask.toBitVec.getLsbD i <;>
    simp_all [insert]

/-- So may they be cleared. -/
theorem remove_remove_of_mem (h : mask &&& bits = bits) :
    (f.remove bits).remove mask = f.remove mask := by
  refine congrArg StepFlags.mk (eq_of_getLsbD fun i hi => ?_)
  have : (mask.toBitVec.getLsbD i && bits.toBitVec.getLsbD i) = bits.toBitVec.getLsbD i := by
    simpa using congrArg (fun x : UInt8 => x.toBitVec.getLsbD i) h
  cases hb : bits.toBitVec.getLsbD i <;> cases hm : mask.toBitVec.getLsbD i <;>
    simp_all [remove]

theorem remove_set_of_mem (h : mask &&& bits = bits) (value : Bool) :
    (f.set bits value).remove mask = f.remove mask := by
  cases value
  · exact remove_remove_of_mem h
  · exact remove_insert_of_mem h

/-- Clearing what is clear changes nothing. -/
theorem remove_eq_self (h : f.bits &&& mask = 0) : f.remove mask = f := by
  refine congrArg StepFlags.mk (eq_of_getLsbD fun i hi => ?_)
  have := getLsbD_of_disjoint h i
  cases hb : f.bits.toBitVec.getLsbD i <;> cases hm : mask.toBitVec.getLsbD i <;> simp_all

end Metronome.StepFlags
