import Mathlib.Data.List.Basic
import Tablature.Number.Numeral
import Tablature.Text

/-!
# The grammar of numerals

Which texts are numerals, said by how they are put together: a sign, a row of digits, a
point and digits behind it, an exponent; or one of the words. Each reader of a part is
shown to read the parts of that form and no others.

* `span_digits`: where a leading row of digits ends;
* `IsSign`, `IsFraction`, `IsExponent`: the parts of a numeral;
* `IsWritten`, `read?_eq_some_iff`: the texts that are numerals.
-/

namespace Tablature.Numeral

/-! ## Rows of digits -/

/-- Nothing but ASCII digits. -/
def AreDigits (cs : List Char) : Prop := ∀ c ∈ cs, isDigit c = true

/-- A text that begins with no digit, so that a row of digits in front of it ends there. -/
def EndsDigits (cs : List Char) : Prop := ∀ c ∈ cs.head?, isDigit c = false

theorem span_digits {ds rest : List Char} (hds : AreDigits ds) (hrest : EndsDigits rest) :
    (ds ++ rest).takeWhile isDigit = ds ∧ (ds ++ rest).dropWhile isDigit = rest :=
  Text.span_append hds hrest

theorem areDigits_takeWhile (cs : List Char) : AreDigits (cs.takeWhile isDigit) :=
  List.all_eq_true.1 List.all_takeWhile

theorem endsDigits_dropWhile (cs : List Char) : EndsDigits (cs.dropWhile isDigit) :=
  Text.head?_dropWhile cs

/-! ## The parts of a numeral -/

/-- A sign, or none; whether it is a minus. -/
inductive IsSign : List Char → Bool → Prop where
  | none : IsSign [] false
  | plus : IsSign ['+'] false
  | minus : IsSign ['-'] true

/-- The places behind a point, or no point. -/
inductive IsFraction : List Char → List Char → Prop where
  | none : IsFraction [] []
  | point {places : List Char} : AreDigits places → IsFraction ('.' :: places) places

/-- The power of ten that a numeral is multiplied by: `e` and a whole number, or nothing. -/
inductive IsExponent : List Char → Int → Prop where
  | none : IsExponent [] 0
  | power {c : Char} {sg ds : List Char} {negative : Bool} : c = 'e' ∨ c = 'E' →
    IsSign sg negative → ds ≠ [] → AreDigits ds →
    IsExponent (c :: (sg ++ ds)) (if negative then -(digitsValue ds : Int) else digitsValue ds)

/-- The words for what is no finite number, in capitals or not. -/
inductive IsWord (negative : Bool) (cs : List Char) : Numeral → Prop where
  | inf : cs.map Char.toLower = "inf".toList → IsWord negative cs (.infinite negative)
  | infinity : cs.map Char.toLower = "infinity".toList → IsWord negative cs (.infinite negative)
  | nan : cs.map Char.toLower = "nan".toList → IsWord negative cs .undefined

/-- How a numeral is written. There is a digit before the point or behind it. -/
inductive IsWritten : List Char → Numeral → Prop where
  | decimal {sg whole point places power : List Char} {negative : Bool} {e : Int} :
    IsSign sg negative → AreDigits whole → IsFraction point places → whole ++ places ≠ [] →
    IsExponent power e →
    IsWritten (sg ++ (whole ++ (point ++ power)))
      (.decimal negative (digitsValue (whole ++ places)) (e - places.length))
  | word {sg cs : List Char} {negative : Bool} {n : Numeral} :
    IsSign sg negative → IsWord negative cs n → IsWritten (sg ++ cs) n

/-! ## Reading the parts -/

theorem isSign_sign (cs : List Char) : ∃ sg, cs = sg ++ (sign cs).2 ∧ IsSign sg (sign cs).1 := by
  unfold sign
  split
  · exact ⟨['-'], rfl, .minus⟩
  · exact ⟨['+'], rfl, .plus⟩
  · exact ⟨[], rfl, .none⟩

/-- A sign is read as such in front of whatever has none. -/
theorem sign_append {sg cs : List Char} {negative : Bool} (h : IsSign sg negative)
    (hcs : ∀ c ∈ cs.head?, c ≠ '-' ∧ c ≠ '+') : sign (sg ++ cs) = (negative, cs) := by
  cases h with
  | plus | minus => rfl
  | none =>
    rw [List.nil_append]
    unfold sign
    split
    · exact absurd rfl (hcs '-' rfl).1
    · exact absurd rfl (hcs '+' rfl).2
    · rfl

theorem isFraction_fraction (cs : List Char) :
    ∃ point, cs = point ++ (fraction cs).2 ∧ IsFraction point (fraction cs).1 := by
  unfold fraction
  split
  · rename_i cs
    refine ⟨'.' :: cs.takeWhile isDigit, ?_, .point (areDigits_takeWhile cs)⟩
    rw [List.cons_append, List.takeWhile_append_dropWhile]
  · exact ⟨[], rfl, .none⟩

theorem fraction_append {point places rest : List Char} (h : IsFraction point places)
    (hrest : EndsDigits rest) (hpoint : rest.head? ≠ some '.') :
    fraction (point ++ rest) = (places, rest) := by
  cases h with
  | none =>
    rw [List.nil_append]
    unfold fraction
    split
    · exact absurd rfl hpoint
    · rfl
  | point hplaces =>
    obtain ⟨htake, hdrop⟩ := span_digits hplaces hrest
    rw [List.cons_append, fraction, htake, hdrop]

theorem ne_sign_of_isDigit {c : Char} (h : isDigit c = true) : c ≠ '-' ∧ c ≠ '+' := by
  constructor <;> rintro rfl <;> exact absurd h (by decide)

theorem exponent?_eq_some_iff {cs : List Char} {e : Int} :
    exponent? cs = some e ↔ IsExponent cs e := by
  constructor
  · intro h
    cases cs with
    | nil =>
      cases h
      exact .none
    | cons c cs =>
      obtain ⟨sg, hcs, hsg⟩ := isSign_sign cs
      simp only [exponent?] at h
      generalize sign cs = p at h hcs hsg
      obtain ⟨negative, ds⟩ := p
      split at h
      · rename_i hc
        cases h
        simp only [Bool.and_eq_true, Bool.or_eq_true, decide_eq_true_eq, Bool.not_eq_true',
          List.isEmpty_eq_false_iff, List.all_eq_true] at hc
        obtain ⟨⟨hc, hne⟩, hds⟩ := hc
        rw [hcs]
        exact .power hc hsg hne hds
      · cases h
  · intro h
    cases h with
    | none => rfl
    | @power c sg ds negative hc hsg hne hds =>
      have hhead : ∀ d ∈ ds.head?, d ≠ '-' ∧ d ≠ '+' := fun d hd =>
        ne_sign_of_isDigit (hds d (List.mem_of_mem_head? hd))
      have hall : ds.all isDigit = true := List.all_eq_true.2 hds
      simp only [exponent?, sign_append hsg hhead]
      simp [hc, hne, hall]

/-- An exponent begins with neither a digit nor a point. -/
theorem IsExponent.head? {cs : List Char} {e : Int} (h : IsExponent cs e) :
    EndsDigits cs ∧ cs.head? ≠ some '.' := by
  cases h with
  | none => exact ⟨nofun, nofun⟩
  | power hc _ _ _ => rcases hc with rfl | rfl <;> exact ⟨by rintro _ ⟨⟩; decide, by simp⟩

theorem word?_eq_some_iff {negative : Bool} {cs : List Char} {n : Numeral} :
    word? negative cs = some n ↔ IsWord negative cs n := by
  simp only [word?, Bool.or_eq_true, decide_eq_true_eq]
  constructor
  · intro h
    split at h
    · rename_i hw
      cases h
      exact hw.elim .inf .infinity
    · split at h
      · rename_i hw
        cases h
        exact .nan hw
      · cases h
  · intro h
    cases h with
    | inf hw => simp [hw]
    | infinity hw => simp [hw]
    | nan hw => simp [hw]

/-- A word begins with a letter. -/
theorem IsWord.head? {negative : Bool} {cs : List Char} {n : Numeral} (h : IsWord negative cs n) :
    ∀ c ∈ cs.head?, isDigit c = false ∧ c ≠ '.' ∧ c ≠ '-' ∧ c ≠ '+' := by
  have hletter : cs.head?.map Char.toLower = some 'i' ∨ cs.head?.map Char.toLower = some 'n' := by
    rw [← List.head?_map]
    cases h with
    | inf hw => exact .inl (by rw [hw]; decide)
    | infinity hw => exact .inl (by rw [hw]; decide)
    | nan hw => exact .inr (by rw [hw]; decide)
  intro c hc
  rw [Option.mem_def.1 hc] at hletter
  simp only [Option.map_some, Option.some.injEq] at hletter
  refine ⟨?_, ?_, ?_, ?_⟩
  · by_contra hdigit
    have hlower : c.toLower = c := by
      simp only [isDigit, Bool.not_eq_false, Bool.and_eq_true, decide_eq_true_eq] at hdigit
      have hle : c ≤ '9' := hdigit.2
      refine dif_neg fun hupper => ?_
      have habove : 'A' ≤ c := hupper.1
      exact absurd (Char.le_trans habove hle) (by decide)
    rw [hlower] at hletter
    rcases hletter with rfl | rfl <;> exact hdigit (by decide)
  all_goals
    rintro rfl
    exact absurd hletter (by decide)

/-! ## Reading a numeral -/

theorem isWritten_of_read? {cs : List Char} {n : Numeral} (h : read? cs = some n) :
    IsWritten cs n := by
  obtain ⟨sg, hcs, hsg⟩ := isSign_sign cs
  simp only [read?] at h
  generalize sign cs = p at h hcs hsg
  obtain ⟨negative, body⟩ := p
  subst hcs
  have hbody : body = body.takeWhile isDigit ++ body.dropWhile isDigit :=
    List.takeWhile_append_dropWhile.symm
  have hwhole := areDigits_takeWhile body
  obtain ⟨point, htail, hfraction⟩ := isFraction_fraction (body.dropWhile isDigit)
  split at h
  · exact .word hsg (word?_eq_some_iff.1 h)
  · rename_i hne
    obtain ⟨e, he, rfl⟩ := Option.map_eq_some_iff.1 h
    rw [htail] at hbody
    generalize body.takeWhile isDigit = whole at *
    generalize fraction (body.dropWhile isDigit) = q at *
    rw [hbody]
    refine .decimal hsg hwhole hfraction ?_ (exponent?_eq_some_iff.1 he)
    simpa using hne

/-- The digits of a numeral and its point stand in front of no sign. -/
theorem head?_digits {whole point places rest : List Char} (hwhole : AreDigits whole)
    (hfraction : IsFraction point places) (hne : whole ++ places ≠ []) :
    ∀ c ∈ (whole ++ (point ++ rest)).head?, c ≠ '-' ∧ c ≠ '+' := by
  intro c hc
  cases whole with
  | nil =>
    cases hfraction with
    | none => exact absurd rfl hne
    | point _ => cases hc; decide
  | cons d whole =>
    cases hc
    exact ne_sign_of_isDigit (hwhole _ List.mem_cons_self)

theorem read?_of_isWritten {cs : List Char} {n : Numeral} (h : IsWritten cs n) :
    read? cs = some n := by
  cases h with
  | @decimal sg whole point places power negative e hsg hwhole hfraction hne hpower =>
    obtain ⟨hdigit, hpoint⟩ := hpower.head?
    have hends : EndsDigits (point ++ power) := by
      cases hfraction with
      | none => exact hdigit
      | point _ => rintro _ ⟨⟩; decide
    obtain ⟨htake, hdrop⟩ := span_digits hwhole hends
    have hempty : ¬ (whole.isEmpty && places.isEmpty) = true := by simpa using hne
    simp only [read?, sign_append hsg (head?_digits hwhole hfraction hne), htake, hdrop,
      fraction_append hfraction hdigit hpoint]
    rw [if_neg hempty, exponent?_eq_some_iff.2 hpower]
    rfl
  | @word sg cs negative n hsg hword =>
    have hhead := hword.head?
    have hends : EndsDigits cs := fun c hc => (hhead c hc).1
    have hpoint : cs.head? ≠ some '.' := fun hc => (hhead '.' hc).2.1 rfl
    have hnone : AreDigits [] := nofun
    obtain ⟨htake, hdrop⟩ := span_digits hnone hends
    rw [List.nil_append] at htake hdrop
    have hfraction : fraction cs = ([], cs) := fraction_append .none hends hpoint
    simp only [read?, sign_append hsg fun c hc => (hhead c hc).2.2, htake, hdrop, hfraction]
    exact word?_eq_some_iff.2 hword

/-- The texts that are numerals, and what they denote. -/
theorem read?_eq_some_iff {cs : List Char} {n : Numeral} : read? cs = some n ↔ IsWritten cs n :=
  ⟨isWritten_of_read?, read?_of_isWritten⟩

theorem read?_eq_none_iff {cs : List Char} : read? cs = none ↔ ∀ n, ¬ IsWritten cs n := by
  simp only [Option.eq_none_iff_forall_ne_some, ne_eq, read?_eq_some_iff]

end Tablature.Numeral
