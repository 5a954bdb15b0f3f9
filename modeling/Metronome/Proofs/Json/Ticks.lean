import Metronome.Json.Records
import Metronome.Proofs.Json.Text
import Metronome.Proofs.TickSet

/-!
# Ticks in JSON

Every tick is read back from what is written of it, whatever its word is, and every set of ticks up
to the order in which its members are listed.
-/

namespace Metronome

namespace Json

/-! ## Whole numbers -/

/-- The digits of a number begin with a zero only if that is all. -/
theorem eq_nil_of_toDigits (n : Nat) {ds : List Char} (h : Nat.toDigits 10 n = '0' :: ds) :
    ds = [] := by
  induction n using Nat.strongRecOn generalizing ds with
  | ind n ih =>
    by_cases hn : n < 10
    · rw [Nat.toDigits_of_lt_base hn] at h
      exact (List.cons.inj h).2.symm
    · obtain ⟨c, cs, hfront⟩ :=
        List.exists_cons_of_ne_nil (Nat.toDigits_ne_nil (n := n / 10) (b := 10))
      rw [Nat.toDigits_of_base_le (by decide) (by omega), hfront, List.cons_append] at h
      obtain ⟨rfl, -⟩ := List.cons.inj h
      -- then the digits in front of the last one are those of zero
      obtain rfl := ih (n / 10) (by omega) hfront
      have hzero : 0 = n / 10 := by
        rw [← Nat.ofDigitChars_ten_toDigits (n := n / 10), hfront]
        rfl
      omega

theorem readable_ofInt (n : Int) : Readable (ofInt n) :=
  .number
    { whole := fun _ hc => Nat.isDigit_of_mem_toDigits (by decide) (by decide) hc
      whole_ne_nil := Nat.toDigits_ne_nil
      eq_nil_of_zero := fun _ => eq_nil_of_toDigits n.natAbs
      fraction := nofun
      exponent := nofun }

theorem le_ofDigitChars (ds : List Char) (n : Nat) : n ≤ Nat.ofDigitChars 10 ds n := by
  induction ds generalizing n with
  | nil => exact Nat.le_refl n
  | cons d ds ih =>
    rw [Nat.ofDigitChars_cons]
    have := ih (10 * n + (d.toNat - '0'.toNat))
    omega

/-- No digit is left over from a number that fits a word of 64 bits. -/
theorem appendDigits_eq {ds : List Char} {n : Nat}
    (h : Nat.ofDigitChars 10 ds n < UInt64.size) :
    appendDigits n ds = (Nat.ofDigitChars 10 ds n, []) := by
  induction ds generalizing n with
  | nil => rfl
  | cons d ds ih =>
    rw [Nat.ofDigitChars_cons] at h ⊢
    have hfits : 10 * n + digitValue d < UInt64.size := Nat.lt_of_le_of_lt (le_ofDigitChars ds _) h
    rw [appendDigits]
    exact (if_pos hfits).trans (ih h)

theorem reading?_digitChars {n : Nat} (h : n < UInt64.size) :
    (Number.mk false (Decimal.digitChars n) [] none).reading? = some (.whole n) := by
  have hvalue : Nat.ofDigitChars 10 (Decimal.digitChars n) 0 = n := Nat.ofDigitChars_ten_toDigits
  rw [Number.reading?, appendDigits_eq (hvalue.symm ▸ h), hvalue]
  rfl

theorem uint32?_ofInt (w : UInt32) : uint32? (ofInt w.toNat) = some w := by
  have hlt := w.toNat_lt
  have hsign : decide ((w.toNat : Int) < 0) = false := decide_eq_false (by omega)
  have hbounds : 0 ≤ (w.toNat : Int) ∧ (w.toNat : Int) ≤ 4294967295 := by omega
  rw [uint32?, ofInt, hsign, Int.natAbs_natCast, intWithin?,
    reading?_digitChars (Nat.lt_trans hlt (by decide))]
  simp only [if_pos hbounds, Option.map_some, Int.toNat_natCast]
  exact congrArg some (UInt32.ofNat_toNat)

end Json

open Json

/-! ## Ticks -/

namespace Tick

theorem readable_toJson (t : Tick) : Readable t.toJson := readable_ofInt _

theorem ofJson?_toJson (t : Tick) : ofJson? t.toJson = some t := by
  rw [ofJson?, toJson, uint32?_ofInt]
  rfl

/-- Every tick is read back. -/
theorem ofJsonText?_text (t : Tick) : ofJsonText? t.toJson.text = some t := by
  rw [ofJsonText?, ofText?_text t.readable_toJson]
  exact t.ofJson?_toJson

end Tick

/-! ## Sets of ticks -/

namespace TickSet

theorem readable_toJson (s : TickSet) : Readable s.toJson := by
  refine .object (List.forall_mem_singleton.mpr nofun) (List.forall_mem_singleton.mpr (.array ?_))
  exact List.forall_mem_map.mpr fun t _ => t.readable_toJson

theorem mapM_ofJson? (ts : List Tick) : (ts.map Tick.toJson).mapM Tick.ofJson? = some ts := by
  induction ts with
  | nil => rfl
  | cons t ts ih => simp [List.mapM_cons, Tick.ofJson?_toJson, ih]

theorem ofJson?_toJson (s : TickSet) : ofJson? s.toJson = some (ofList s.ticks) := by
  show (((s.ticks.map Tick.toJson).mapM Tick.ofJson?).bind fun ts => some (ofList ts)) = _
  rw [mapM_ofJson?, Option.bind_some]

/-- Every set is read back, its members listed in some order. -/
theorem exists_ofJsonText?_text (s : TickSet) :
    ∃ s', ofJsonText? s.toJson.text = some s' ∧ s'.ticks.Perm s.ticks := by
  refine ⟨ofList s.ticks, ?_, ofList_perm s.nodup⟩
  rw [ofJsonText?, ofText?_text s.readable_toJson]
  exact s.ofJson?_toJson

end TickSet

end Metronome
