import Mathlib.Data.List.TakeDrop
import Metronome.Json.Reading

/-!
# What is written is read

The text of a JSON value is read as that value (`ofText?_text`), for all values that have a text:
those whose numbers are written as numbers are, and whose texts name no half of a surrogate pair
(`Readable`).

A reader takes what it needs and leaves the rest, so each lemma is about a text with anything after
it. Only a number can go on with what comes after, hence `Ends`.
-/

namespace Metronome.Json

/-! ## Numbers -/

/-- What may come after a number: nothing that it could go on with. -/
def Ends (rest : List Char) : Prop :=
  ∀ c ∈ rest.head?, c.isDigit = false ∧ c ≠ '.' ∧ c ≠ 'e' ∧ c ≠ 'E'

/-- Digits only. -/
def Digits (ds : List Char) : Prop := ∀ c ∈ ds, c.isDigit = true

/-- A number as it may be written: digits before the point, a zero in front only on its own, and
digits of the power of ten if there is one. -/
structure Number.WellFormed (n : Number) : Prop where
  whole : Digits n.whole
  whole_ne_nil : n.whole ≠ []
  eq_nil_of_zero : ∀ ds, n.whole = '0' :: ds → ds = []
  fraction : Digits n.fraction
  exponent : ∀ p ∈ n.exponent, Digits p.2 ∧ p.2 ≠ []

theorem ends_nil : Ends [] := nofun

theorem ends_cons {c : Char} (h : c ∈ [',', ']', '\x7d']) (cs : List Char) : Ends (c :: cs) := by
  rintro d ⟨⟩
  simp only [List.mem_cons, List.not_mem_nil, or_false] at h
  rcases h with rfl | rfl | rfl <;> decide

section Numbers

variable {ds rest : List Char}

theorem digits_append (hds : Digits ds) (hrest : ∀ c ∈ rest.head?, c.isDigit = false) :
    digits (ds ++ rest) = (ds, rest) := by
  rw [digits, List.span_eq_takeWhile_dropWhile, List.takeWhile_append_of_pos hds,
    List.dropWhile_append_of_pos hds]
  cases rest with
  | nil => simp
  | cons c rest =>
    have hc : c.isDigit = false := hrest c rfl
    simp [hc]

theorem wholePart?_append (hds : Digits ds) (hne : ds ≠ [])
    (hzero : ∀ cs, ds = '0' :: cs → cs = []) (hrest : ∀ c ∈ rest.head?, c.isDigit = false) :
    wholePart? (ds ++ rest) = some (ds, rest) := by
  rw [wholePart?, digits_append hds hrest]
  split
  · exact absurd (Prod.mk.inj ‹_›).1 hne
  · exact absurd (hzero _ (Prod.mk.inj ‹_›).1) (List.cons_ne_nil _ _)
  · rfl

/-- The text of the places after the point. -/
def fractionChars : List Char → List Char
  | [] => []
  | ds => '.' :: ds

/-- The text of a power of ten. -/
def powerChars : Option (Bool × List Char) → List Char
  | none => []
  | some (negative, ds) => 'e' :: (if negative then '-' else '+') :: ds

theorem Number.chars_eq (n : Number) :
    n.chars = Binary.signChars n.negative ++
      (n.whole ++ (fractionChars n.fraction ++ powerChars n.exponent)) := by
  obtain ⟨negative, whole, fraction, exponent⟩ := n
  rw [Number.chars, List.append_assoc]
  congr 1
  cases fraction <;> cases exponent <;> simp [Decimal.pointed, fractionChars, powerChars]

theorem powerDigits?_append (negative : Bool) (hds : Digits ds) (hne : ds ≠ [])
    (hrest : Ends rest) :
    powerDigits? negative (ds ++ rest) = some (some (negative, ds), rest) := by
  rw [powerDigits?, digits_append hds fun c hc => (hrest c hc).1]
  split
  · exact absurd (Prod.mk.inj ‹_›).1 hne
  · rename_i heq
    cases heq
    rfl

theorem powerPart?_append {power : Option (Bool × List Char)}
    (hpower : ∀ p ∈ power, Digits p.2 ∧ p.2 ≠ []) (hrest : Ends rest) :
    powerPart? (powerChars power ++ rest) = some (power, rest) := by
  cases power with
  | none =>
    show powerPart? rest = some (none, rest)
    unfold powerPart?
    split
    · exact absurd rfl (hrest _ rfl).2.2.1
    · exact absurd rfl (hrest _ rfl).2.2.2
    · rfl
  | some p =>
    obtain ⟨negative, ds⟩ := p
    obtain ⟨hds, hne⟩ := hpower _ rfl
    cases negative with
    | false => exact powerDigits?_append false hds hne hrest
    | true => exact powerDigits?_append true hds hne hrest

theorem fractionPart?_append (hds : Digits ds)
    (hrest : ∀ c ∈ rest.head?, c.isDigit = false ∧ c ≠ '.') :
    fractionPart? (fractionChars ds ++ rest) = some (ds, rest) := by
  cases ds with
  | nil =>
    show fractionPart? rest = some ([], rest)
    unfold fractionPart?
    split
    · exact absurd rfl (hrest _ rfl).2
    · rfl
  | cons d ds =>
    show fractionPart? ('.' :: (d :: ds ++ rest)) = some (d :: ds, rest)
    rw [fractionPart?, digits_append hds fun c hc => (hrest c hc).1]

/-- Nothing in the text after the digits before the point is a digit. -/
theorem head?_fractionChars_append (ds : List Char) (power : Option (Bool × List Char))
    (hrest : Ends rest) :
    (∀ c ∈ (powerChars power ++ rest).head?, c.isDigit = false ∧ c ≠ '.') ∧
      ∀ c ∈ (fractionChars ds ++ (powerChars power ++ rest)).head?, c.isDigit = false := by
  have hpower : ∀ c ∈ (powerChars power ++ rest).head?, c.isDigit = false ∧ c ≠ '.' := by
    cases power with
    | none => exact fun c hc => ⟨(hrest c hc).1, (hrest c hc).2.1⟩
    | some p =>
      rintro c ⟨⟩
      decide
  refine ⟨hpower, ?_⟩
  cases ds with
  | nil => exact fun c hc => (hpower c hc).1
  | cons d ds =>
    rintro c ⟨⟩
    decide

theorem unsigned?_append {n : Number} (h : n.WellFormed) (hrest : Ends rest) :
    unsigned? n.negative
      (n.whole ++ (fractionChars n.fraction ++ (powerChars n.exponent ++ rest))) =
        some (n, rest) := by
  obtain ⟨hpower, hfraction⟩ := head?_fractionChars_append n.fraction n.exponent hrest
  rw [unsigned?, wholePart?_append h.whole h.whole_ne_nil h.eq_nil_of_zero hfraction]
  simp only [Option.bind_eq_bind, Option.bind_some, fractionPart?_append h.fraction hpower,
    powerPart?_append h.exponent hrest]
  rfl

/-- A number is read back, and what comes after it is left. -/
theorem number?_chars {n : Number} (h : n.WellFormed) (hrest : Ends rest) :
    number? (n.chars ++ rest) = some (n, rest) := by
  rw [n.chars_eq]
  have hread := unsigned?_append h hrest
  obtain ⟨negative, whole, fraction, exponent⟩ := n
  simp only [List.append_assoc] at hread ⊢
  cases negative with
  | true => exact hread
  | false =>
    obtain ⟨c, ds, rfl⟩ := List.exists_cons_of_ne_nil h.whole_ne_nil
    have hdigit : c.isDigit = true := h.whole c List.mem_cons_self
    show number? (c :: _) = _
    unfold number?
    split
    · rename_i heq
      rw [(List.cons.inj heq).1] at hdigit
      exact absurd hdigit (by decide)
    · exact hread

end Numbers

/-! ## Texts -/

/-- What a character of a text is read as: control characters without a short escape are named by
their number. -/
def pieceOf (c : Char) : Piece :=
  if c.toNat < 32 ∧ c ∉ ['\n', '\r', '\t', '\x08', '\x0c'] then .unit c.toNat else .char c

/-- Two digits of base sixteen name a control character. -/
theorem value?_control : ∀ n < 32,
    Numeral.value? 16 ['0', '0', Nat.digitChar (n / 16), Nat.digitChar (n % 16)] = some n := by
  decide

/-- A character stands for itself, or an escape for it. -/
theorem escaped_cases (c : Char) :
    (∃ e, escaped c = '\\' :: e ∧ ∀ cs, escape? (e ++ cs) = some (pieceOf c, cs)) ∨
      (escaped c = [c] ∧ c ≠ '"' ∧ c ≠ '\\' ∧ ¬c.toNat < 32 ∧ pieceOf c = .char c) := by
  unfold escaped
  split_ifs with hquote hslash hcontrol
  · subst hquote
    exact .inl ⟨_, rfl, fun _ => rfl⟩
  · subst hslash
    exact .inl ⟨_, rfl, fun _ => rfl⟩
  · refine .inl ?_
    split
    · exact ⟨_, rfl, fun _ => rfl⟩
    · exact ⟨_, rfl, fun _ => rfl⟩
    · exact ⟨_, rfl, fun _ => rfl⟩
    · exact ⟨_, rfl, fun _ => rfl⟩
    · exact ⟨_, rfl, fun _ => rfl⟩
    · refine ⟨_, rfl, fun cs => ?_⟩
      have hpiece : pieceOf c = .unit c.toNat := if_pos ⟨hcontrol, by simp; tauto⟩
      show (Numeral.value? 16 _).map _ = _
      rw [value?_control c.toNat hcontrol, hpiece]
      rfl
  · exact .inr ⟨rfl, hquote, hslash, hcontrol, if_neg fun h => hcontrol h.1⟩

/-- What stands for a character is read as one piece. -/
theorem pieces?_escaped (fuel : Nat) (c : Char) (cs : List Char) :
    pieces? (fuel + 1) (escaped c ++ cs) =
      (pieces? fuel cs).map fun (ps, rest) => (pieceOf c :: ps, rest) := by
  obtain ⟨e, he, hread⟩ | ⟨hself, hquote, hslash, hprint, hpiece⟩ := escaped_cases c
  · rw [he, List.cons_append, pieces?, hread]
    simp only [Option.bind_eq_bind, Option.bind_some]
    cases pieces? fuel cs <;> rfl
  · rw [hself, hpiece]
    show pieces? (fuel + 1) (c :: cs) = _
    rw [pieces?, if_neg hprint]
    · cases pieces? fuel cs <;> rfl
    · exact fun h => absurd h hquote
    · exact fun h => absurd h hslash

/-- A text is read up to its closing quote. -/
theorem pieces?_flatMap (cs rest : List Char) {fuel : Nat} (hfuel : cs.length < fuel) :
    pieces? fuel (cs.flatMap escaped ++ '"' :: rest) = some (cs.map pieceOf, rest) := by
  induction cs generalizing fuel with
  | nil =>
    obtain ⟨fuel, rfl⟩ := Nat.exists_eq_add_one_of_ne_zero (Nat.ne_of_gt hfuel)
    rfl
  | cons c cs ih =>
    obtain ⟨fuel, rfl⟩ := Nat.exists_eq_add_one_of_ne_zero (Nat.ne_of_gt (Nat.zero_lt_of_lt hfuel))
    rw [List.flatMap_cons, List.append_assoc, pieces?_escaped,
      ih (Nat.lt_of_succ_lt_succ hfuel)]
    rfl

/-- A unit outside the surrogates is a character on its own. -/
theorem join?_unit {n : Nat} (h : n < 0xd800) (ps : List Piece) :
    join? (.unit n :: ps) = (join? ps).map (Char.ofNat n :: ·) := by
  have hlead : ¬(0xd800 ≤ n) := by omega
  have htrail : ¬(0xdc00 ≤ n) := by omega
  rcases ps with _ | ⟨_ | m, ps⟩ <;> simp [join?, hlead, htrail]

/-- The pieces of a text are put together to it. -/
theorem join?_map (cs : List Char) : join? (cs.map pieceOf) = some cs := by
  induction cs with
  | nil => rfl
  | cons c cs ih =>
    rw [List.map_cons]
    by_cases hnamed : c.toNat < 32 ∧ c ∉ ['\n', '\r', '\t', '\x08', '\x0c']
    · rw [show pieceOf c = .unit c.toNat from if_pos hnamed, join?_unit (by omega), ih,
        Char.ofNat_toNat]
      rfl
    · rw [show pieceOf c = .char c from if_neg hnamed, join?, ih]
      rfl

/-- No character is left out. -/
theorem length_le_flatMap_escaped (cs : List Char) :
    cs.length ≤ (cs.flatMap escaped).length := by
  induction cs with
  | nil => exact Nat.le_refl 0
  | cons c cs ih =>
    have hone : 1 ≤ (escaped c).length := by
      obtain ⟨e, he, -⟩ | ⟨he, -⟩ := escaped_cases c <;> rw [he] <;> exact Nat.le_add_left ..
    rw [List.flatMap_cons, List.length_append, List.length_cons]
    omega

/-- What follows the opening quote of a text is read as that text. -/
theorem text?_quoted (s : String) (rest : List Char) :
    text? (s.toList.flatMap escaped ++ '"' :: rest) = some (some s, rest) := by
  have hlength := length_le_flatMap_escaped s.toList
  rw [text?, pieces?_flatMap _ _ (by rw [List.length_append]; omega)]
  show some ((join? (s.toList.map pieceOf)).map String.ofList, rest) = _
  rw [join?_map, Option.map_some, String.ofList_toList]

/-! ## Values -/

/-- A value that has a text. -/
inductive Readable : Json → Prop
  /-- No value. -/
  | null : Readable null
  /-- A truth value. -/
  | bool (b : Bool) : Readable (.bool b)
  /-- A number that is written as numbers are. -/
  | number {n : Number} (wellFormed : n.WellFormed) : Readable (.number n)
  /-- A text without half a surrogate pair. -/
  | string (s : String) : Readable (.string (some s))
  /-- An array of such values. -/
  | array {js : List Json} (elements : ∀ j ∈ js, Readable j) : Readable (.array js)
  /-- An object of such values with such names. -/
  | object {ms : List (Option String × Json)} (names : ∀ m ∈ ms, m.1 ≠ none)
      (members : ∀ m ∈ ms, Readable m.2) : Readable (.object ms)

theorem skipBlanks_cons {c : Char} (h : isBlank c = false) (cs : List Char) :
    skipBlanks (c :: cs) = c :: cs := by
  simp [skipBlanks, h]

/-- The text of a number begins with its sign or a digit. -/
theorem Number.WellFormed.exists_chars {n : Number} (h : n.WellFormed) :
    ∃ c cs, n.chars = c :: cs ∧ (c = '-' ∨ c.isDigit = true) := by
  obtain ⟨d, ds, hds⟩ := List.exists_cons_of_ne_nil h.whole_ne_nil
  rw [n.chars_eq]
  cases n.negative with
  | true => exact ⟨'-', _, rfl, .inl rfl⟩
  | false =>
    rw [hds]
    exact ⟨d, _, rfl, .inr (h.whole d (hds ▸ List.mem_cons_self))⟩

/-- Neither a blank nor a bracket that closes. -/
def Opens (c : Char) : Prop := isBlank c = false ∧ c ≠ ']'

instance (c : Char) : Decidable (Opens c) := inferInstanceAs (Decidable (_ ∧ _))

theorem opens_of_number {c : Char} (h : c = '-' ∨ c.isDigit = true) : Opens c := by
  rcases h with rfl | h
  · decide
  · refine ⟨?_, ?_⟩
    · by_contra hblank
      simp only [isBlank, Bool.not_eq_false, Bool.or_eq_true, beq_iff_eq] at hblank
      rcases hblank with ((rfl | rfl) | rfl) | rfl <;> exact absurd h (by decide)
    · rintro rfl
      exact absurd h (by decide)

/-- How the text of a value begins. -/
theorem Readable.exists_chars {j : Json} (h : Readable j) :
    ∃ c cs, j.chars = c :: cs ∧ Opens c := by
  cases h with
  | null => exact ⟨'n', _, by rw [chars], by decide⟩
  | bool b => cases b with
    | true => exact ⟨'t', _, by rw [chars], by decide⟩
    | false => exact ⟨'f', _, by rw [chars], by decide⟩
  | number h =>
    obtain ⟨c, cs, hchars, hc⟩ := h.exists_chars
    exact ⟨c, cs, by rw [chars, hchars], opens_of_number hc⟩
  | string s => exact ⟨'"', _, by rw [chars]; rfl, by decide⟩
  | array _ => exact ⟨'[', _, by rw [chars], by decide⟩
  | object _ _ => exact ⟨'\x7b', _, by rw [chars], by decide⟩

/-! ### What the first character decides -/

theorem value?_number {fuel : Nat} {c : Char} (h : c = '-' ∨ c.isDigit = true) (cs : List Char) :
    value? (fuel + 1) (c :: cs) = (number? (c :: cs)).map fun (n, cs) => (number n, cs) := by
  rw [value?, skipBlanks_cons (opens_of_number h).1]
  -- a number is what is left when no other kind of value begins with this character
  split
  case h_8 => rfl
  case h_1 heq => cases heq
  all_goals
    rename_i heq
    cases heq
    exact absurd h (by decide)

theorem value?_quote (fuel : Nat) (cs : List Char) :
    value? (fuel + 1) ('"' :: cs) = (text? cs).map fun (s, cs) => (string s, cs) := by
  rw [value?, skipBlanks_cons (by decide)]
  rfl

theorem value?_array {fuel : Nat} {c : Char} (h : Opens c) (cs : List Char) :
    value? (fuel + 1) ('[' :: c :: cs) =
      (elements? fuel (c :: cs)).map fun (js, cs) => (array js, cs) := by
  rw [value?, skipBlanks_cons (by decide)]
  simp only [skipBlanks_cons h.1]
  split
  · rename_i heq
    cases heq
    exact absurd rfl h.2
  · rfl

theorem value?_object (fuel : Nat) (cs : List Char) :
    value? (fuel + 1) ('\x7b' :: '"' :: cs) =
      (members? fuel ('"' :: cs)).map fun (ms, cs) => (object ms, cs) := by
  rw [value?, skipBlanks_cons (by decide)]
  simp only [skipBlanks_cons (show isBlank '"' = false by decide)]
  rfl

/-! ### One element, one member -/

section Parts

variable {fuel : Nat} {j : Json} {rest : List Char}

theorem elements?_last (h : value? fuel (j.chars ++ ']' :: rest) = some (j, ']' :: rest)) :
    elements? (fuel + 1) (j.chars ++ ']' :: rest) = some ([j], rest) := by
  rw [elements?, h]
  rfl

theorem elements?_more (h : value? fuel (j.chars ++ ',' :: rest) = some (j, ',' :: rest)) :
    elements? (fuel + 1) (j.chars ++ ',' :: rest) =
      (elements? fuel rest).map fun (js, cs) => (j :: js, cs) := by
  rw [elements?, h]
  rfl

/-- The name of a member is read, and the value comes after a colon. -/
theorem members?_name (name : String) (cs : List Char) :
    members? (fuel + 1) (quoted name ++ ':' :: cs) =
      (value? fuel cs).bind fun (j, cs) =>
        match skipBlanks cs with
        | ',' :: cs => (members? fuel cs).map fun (ms, cs) => ((some name, j) :: ms, cs)
        | '\x7d' :: cs => some ([(some name, j)], cs)
        | _ => none := by
  rw [quoted, List.cons_append, List.append_assoc, List.singleton_append, members?,
    skipBlanks_cons (by decide)]
  simp only [text?_quoted, Option.bind_eq_bind, Option.bind_some]
  rfl

theorem members?_last (name : String)
    (h : value? fuel (j.chars ++ '\x7d' :: rest) = some (j, '\x7d' :: rest)) :
    members? (fuel + 1) (quoted name ++ ':' :: (j.chars ++ '\x7d' :: rest)) =
      some ([(some name, j)], rest) := by
  rw [members?_name, h]
  rfl

theorem members?_more (name : String)
    (h : value? fuel (j.chars ++ ',' :: rest) = some (j, ',' :: rest)) :
    members? (fuel + 1) (quoted name ++ ':' :: (j.chars ++ ',' :: rest)) =
      (members? fuel rest).map fun (ms, cs) => ((some name, j) :: ms, cs) := by
  rw [members?_name, h]
  rfl

end Parts

/-! ### Values, elements and members -/

/-- Fuel for a text: each character of it is the first one of at most a value and a list of
values. -/
def Enough (fuel : Nat) (cs : List Char) : Prop := 2 * cs.length ≤ fuel

theorem not_enough {c : Char} {cs : List Char} : ¬Enough 0 (c :: cs) := Nat.not_succ_le_zero _

/-- A part that is not all of the text has enough fuel left. -/
theorem Enough.part {fuel : Nat} {cs part : List Char} (h : Enough (fuel + 1) cs)
    (hpart : part.length < cs.length) : Enough fuel part := by
  simp only [Enough] at h ⊢
  omega

theorem elementChars_cons (j j' : Json) (js : List Json) :
    elementChars (j :: j' :: js) = j.chars ++ ',' :: elementChars (j' :: js) := by
  rw [elementChars]
  exact List.cons_ne_nil j' js

theorem memberChars_singleton (name : String) (j : Json) :
    memberChars [(some name, j)] = quoted name ++ (':' :: (j.chars ++ ['\x7d'])) := by
  rw [memberChars, List.append_assoc]
  rfl

theorem memberChars_cons (name : String) (j : Json) (m : Option String × Json)
    (ms : List (Option String × Json)) : memberChars ((some name, j) :: m :: ms) =
      quoted name ++ (':' :: (j.chars ++ ',' :: memberChars (m :: ms))) := by
  rw [memberChars, List.append_assoc]
  · rfl
  · exact List.cons_ne_nil m ms

theorem exists_elementChars {j : Json} (h : Readable j) (js : List Json) :
    ∃ c cs, elementChars (j :: js) = c :: cs ∧ Opens c := by
  obtain ⟨c, cs, hchars, hc⟩ := h.exists_chars
  cases js with
  | nil => exact ⟨c, _, by rw [elementChars, hchars, List.cons_append], hc⟩
  | cons j' js => exact ⟨c, _, by rw [elementChars_cons, hchars, List.cons_append], hc⟩

theorem exists_memberChars (name : String) (j : Json) (ms : List (Option String × Json)) :
    ∃ cs, memberChars ((some name, j) :: ms) = '"' :: cs := by
  cases ms with
  | nil => exact ⟨_, memberChars_singleton name j⟩
  | cons m ms => exact ⟨_, memberChars_cons name j m ms⟩

mutual

/-- A value is read back, and what comes after it is left. -/
theorem value?_chars : ∀ (fuel : Nat) {j : Json}, Readable j → ∀ (rest : List Char), Ends rest →
    Enough fuel j.chars → value? fuel (j.chars ++ rest) = some (j, rest)
  | 0, j, h, rest, _, hfuel => by
    obtain ⟨c, cs, hchars, -⟩ := h.exists_chars
    exact absurd (hchars ▸ hfuel) not_enough
  | fuel + 1, j, h, rest, hrest, hfuel => by
    cases h with
    | null =>
      rw [chars]
      rfl
    | bool b =>
      cases b <;> rw [chars] <;> rfl
    | number h =>
      obtain ⟨c, cs, hchars, hc⟩ := h.exists_chars
      have hread := number?_chars h hrest
      rw [hchars, List.cons_append] at hread
      rw [chars, hchars, List.cons_append, value?_number hc, hread]
      rfl
    | string s =>
      rw [chars, quotedText, Option.getD_some, quoted, List.cons_append, value?_quote,
        List.append_assoc, List.singleton_append, text?_quoted]
      rfl
    | @array js h =>
      rw [chars] at hfuel ⊢
      cases js with
      | nil =>
        rw [elementChars]
        rfl
      | cons j js =>
        have hread := elements?_chars fuel h rest (hfuel.part (Nat.lt_succ_self _))
        obtain ⟨c, cs, hchars, hc⟩ := exists_elementChars (h j List.mem_cons_self) js
        rw [hchars, List.cons_append] at hread
        rw [hchars, List.cons_append, List.cons_append, value?_array hc, hread]
        rfl
    | @object ms names h =>
      rw [chars] at hfuel ⊢
      cases ms with
      | nil =>
        rw [memberChars]
        rfl
      | cons m ms =>
        have hread := members?_chars fuel names h rest (hfuel.part (Nat.lt_succ_self _))
        obtain ⟨_ | name, j⟩ := m
        · exact absurd rfl (names _ List.mem_cons_self)
        obtain ⟨cs, hchars⟩ := exists_memberChars name j ms
        rw [hchars, List.cons_append] at hread
        rw [hchars, List.cons_append, List.cons_append, value?_object, hread]
        rfl

/-- The elements of an array are read back, with the bracket that closes it. -/
theorem elements?_chars : ∀ (fuel : Nat) {j : Json} {js : List Json}, (∀ x ∈ j :: js, Readable x) →
    ∀ (rest : List Char), Enough fuel (elementChars (j :: js)) →
      elements? fuel (elementChars (j :: js) ++ rest) = some (j :: js, rest)
  | 0, j, js, h, _, hfuel => by
    obtain ⟨c, cs, hchars, -⟩ := exists_elementChars (h j List.mem_cons_self) js
    exact absurd (hchars ▸ hfuel) not_enough
  | fuel + 1, j, [], h, rest, hfuel => by
    rw [elementChars] at hfuel ⊢
    have hj := value?_chars fuel (h j List.mem_cons_self) (']' :: rest) (ends_cons (by decide) _)
      (hfuel.part (by simp))
    rw [List.append_assoc]
    exact elements?_last hj
  | fuel + 1, j, j' :: js, h, rest, hfuel => by
    rw [elementChars_cons] at hfuel ⊢
    have hj := value?_chars fuel (h j List.mem_cons_self)
      (',' :: (elementChars (j' :: js) ++ rest)) (ends_cons (by decide) _) (hfuel.part (by simp))
    have hjs := elements?_chars fuel (fun x hx => h x (List.mem_cons_of_mem j hx)) rest
      (hfuel.part (by simp; omega))
    rw [List.append_assoc, List.cons_append, elements?_more hj, hjs]
    rfl

/-- The members of an object are read back, with the brace that closes it. -/
theorem members?_chars : ∀ (fuel : Nat) {m : Option String × Json}
    {ms : List (Option String × Json)}, (∀ x ∈ m :: ms, x.1 ≠ none) →
    (∀ x ∈ m :: ms, Readable x.2) → ∀ (rest : List Char), Enough fuel (memberChars (m :: ms)) →
      members? fuel (memberChars (m :: ms) ++ rest) = some (m :: ms, rest)
  | _, (none, _), _, names, _, _, _ => absurd rfl (names _ List.mem_cons_self)
  | 0, (some name, j), ms, _, _, _, hfuel => by
    obtain ⟨cs, hchars⟩ := exists_memberChars name j ms
    exact absurd (hchars ▸ hfuel) not_enough
  | fuel + 1, (some name, j), [], names, h, rest, hfuel => by
    rw [memberChars_singleton] at hfuel ⊢
    have hj := value?_chars fuel (h _ List.mem_cons_self) ('\x7d' :: rest)
      (ends_cons (by decide) _) (hfuel.part (by simp; omega))
    rw [List.append_assoc, List.cons_append, List.append_assoc]
    exact members?_last name hj
  | fuel + 1, (some name, j), m' :: ms, names, h, rest, hfuel => by
    rw [memberChars_cons] at hfuel ⊢
    have hj := value?_chars fuel (h _ List.mem_cons_self)
      (',' :: (memberChars (m' :: ms) ++ rest)) (ends_cons (by decide) _)
      (hfuel.part (by simp; omega))
    have hms := members?_chars fuel (fun x hx => names x (List.mem_cons_of_mem _ hx))
      (fun x hx => h x (List.mem_cons_of_mem _ hx)) rest (hfuel.part (by simp; omega))
    rw [List.append_assoc, List.cons_append, List.append_assoc, List.cons_append,
      members?_more name hj, hms]
    rfl

end

/-- The text of a value is read as that value. -/
theorem ofText?_text {j : Json} (h : Readable j) : ofText? j.text = some j := by
  have hj := value?_chars (2 * j.chars.length + 2) h [] ends_nil (Nat.le_add_right _ 2)
  rw [List.append_nil] at hj
  rw [ofText?, text, String.toList_ofList]
  simp only [hj, Option.bind_eq_bind, Option.bind_some]
  rfl

end Metronome.Json
