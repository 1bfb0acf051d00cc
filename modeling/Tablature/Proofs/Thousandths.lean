import Mathlib
import Tablature.Number.Decimal
import Tablature.Proofs.Double
import Tablature.Text

/-!
# Numbers written to three places

A finite double is written as a whole number of thousandths, the one nearest to it,
and that number can be read back from its text.

* `Binary.isNearest_inThousandths`: the thousandths are the nearest, and even if two
  are equally near;
* `trimEnd_threePlaces`: what is left of three places without the zeros at their end;
* `toList_thousandths`: what is written depends on the thousandths alone;
* `readThousandths?_numeral`: what is written is read back.
-/

namespace Tablature

/-! ## Rounding -/

/-- A whole number is nearest to a rational, and even if another is equally near. -/
structure IsNearest (k : Int) (r : Rat) : Prop where
  near : |k - r| ≤ 1 / 2
  even : |k - r| = 1 / 2 → Even k

theorem IsNearest.neg {k : Int} {r : Rat} (h : IsNearest k r) : IsNearest (-k) (-r) := by
  have e : |((-k : Int) : Rat) - -r| = |k - r| := by
    rw [Int.cast_neg, neg_sub_neg, abs_sub_comm]
  exact ⟨e ▸ h.near, fun ht => (h.even (e ▸ ht)).neg⟩

/-- Less than half of the way to the next whole number. -/
theorem isNearest_of_lt_half {q : Nat} {x : Rat} (hx₀ : 0 ≤ x) (hx : x < 1 / 2) :
    IsNearest q (q + x) := by
  have e : |((q : Int) : Rat) - (q + x)| = x := by
    rw [Int.cast_natCast, sub_add_cancel_left, abs_neg, abs_of_nonneg hx₀]
  exact ⟨e.trans_le hx.le, fun h => absurd (e.symm.trans h) hx.ne⟩

/-- More than half of the way to the next whole number. -/
theorem isNearest_of_half_lt {q : Nat} {x : Rat} (hx : 1 / 2 < x) (hx₁ : x ≤ 1) :
    IsNearest (q + 1 : Nat) (q + x) := by
  have e : |(((q + 1 : Nat) : Int) : Rat) - (q + x)| = 1 - x := by
    rw [Int.cast_natCast, Nat.cast_succ, add_sub_add_left_eq_sub,
      abs_of_nonneg (sub_nonneg.2 hx₁)]
  have hlt : 1 - x < 1 / 2 := by linarith
  exact ⟨e.trans_le hlt.le, fun h => absurd (e.symm.trans h) hlt.ne⟩

/-- Half of the way to the next whole number. -/
theorem isNearest_half (q : Nat) : IsNearest (q + q % 2 : Nat) (q + 1 / 2) where
  near := by
    rcases Nat.mod_two_eq_zero_or_one q with h | h <;> rw [h] <;> push_cast <;>
      norm_num [abs_le]
  even _ := by
    rw [Int.even_coe_nat, Nat.even_iff]
    omega

namespace Binary

theorem isNearest_roundDiv (num : Nat) {den : Nat} (h : 0 < den) :
    IsNearest (roundDiv num den) (num / den) := by
  have hden : (0 : Rat) < den := by exact_mod_cast h
  have e : (num : Rat) / den = (num / den : Nat) + (num % den : Nat) / den := by
    have e : ((den * (num / den) + num % den : Nat) : Rat) = num := by rw [Nat.div_add_mod]
    rw [← e]
    push_cast
    field_simp
  have hr : num % den < den := Nat.mod_lt num h
  rw [e]
  unfold roundDiv
  generalize num / den = q
  generalize num % den = r at hr ⊢
  dsimp only
  split
  · refine isNearest_of_lt_half (div_nonneg (Nat.cast_nonneg r) hden.le) ?_
    rw [div_lt_div_iff₀ hden two_pos]
    exact_mod_cast (by omega : r * 2 < 1 * den)
  · split
    · refine isNearest_of_half_lt ?_ ?_
      · rw [div_lt_div_iff₀ two_pos hden]
        exact_mod_cast (by omega : 1 * den < r * 2)
      · rw [div_le_one hden]
        exact_mod_cast hr.le
    · have htie : (r : Rat) / den = 1 / 2 := by
        rw [div_eq_div_iff hden.ne' two_ne_zero]
        exact_mod_cast (by omega : r * 2 = 1 * den)
      rw [htie]
      exact isNearest_half q

/-- What a double stands for; nothing but zero stands for what is not finite. -/
def value : Binary → Rat
  | finite negative mantissa exponent =>
    let magnitude := mantissa * (2 : Rat) ^ exponent
    if negative then -magnitude else magnitude
  | _ => 0

/-- The number of thousandths that is written for a double. -/
def inThousandths : Binary → Int
  | finite negative mantissa exponent =>
    let magnitude : Int := inParts 1000 mantissa exponent
    if negative then -magnitude else magnitude
  | _ => 0

theorem isNearest_inParts (parts mantissa : Nat) (exponent : Int) :
    IsNearest (inParts parts mantissa exponent) (parts * (mantissa * 2 ^ exponent)) := by
  have h := isNearest_roundDiv (mantissa * parts * Nat.pow 2 exponent.toNat)
    (Nat.two_pow_pos (-exponent).toNat)
  have e : ((mantissa * parts * Nat.pow 2 exponent.toNat : Nat) : Rat) /
      (2 ^ (-exponent).toNat : Nat) = parts * (mantissa * 2 ^ exponent) := by
    cases exponent with
    | ofNat n =>
      have hn : (Int.ofNat n).toNat = n := rfl
      have hn' : (-(Int.ofNat n)).toNat = 0 := by simp
      have hpow : (2 : Rat) ^ Int.ofNat n = 2 ^ n := zpow_natCast 2 n
      rw [hn, hn', hpow, Nat.pow_eq]
      push_cast
      ring
    | negSucc n =>
      have hn : (Int.negSucc n).toNat = 0 := rfl
      have hn' : (-(Int.negSucc n)).toNat = n + 1 := rfl
      rw [hn, hn', zpow_negSucc, Nat.pow_eq]
      push_cast
      ring
  rw [e] at h
  exact h

theorem isNearest_inThousandths (b : Binary) : IsNearest b.inThousandths (1000 * b.value) := by
  cases b with
  | finite negative mantissa exponent =>
    have h := isNearest_inParts 1000 mantissa exponent
    cases negative with
    | false => exact_mod_cast h
    | true =>
      have e : (1000 : Rat) * -(mantissa * 2 ^ exponent) =
          -((1000 : Nat) * (mantissa * 2 ^ exponent)) := by
        push_cast
        ring
      have h := h.neg
      rw [← e] at h
      exact h
  | infinite _ | undefined => exact ⟨by simp [inThousandths, value], fun _ => Even.zero⟩

end Binary

/-- The number of thousandths that is written for a double. A zero has no sign. -/
def inThousandths (v : Float) : Int := (Binary.ofFloat v).inThousandths

/-- A finite double has a mantissa and an exponent. -/
theorem exists_finite_of_isFinite {v : Float} (h : v.isFinite = true) :
    ∃ negative mantissa exponent, Binary.ofFloat v = .finite negative mantissa exponent := by
  rw [Double.ofFloat_eq]
  change v.toModel.unpack.isFinite = true at h
  generalize v.toModel.unpack = u at h
  cases u with
  | notANumber | infinity => cases h
  | zero | finite => exact ⟨_, _, _, rfl⟩

/-! ## Texts -/

namespace Numeral

theorem digitsValue_append (as bs : List Char) :
    digitsValue (as ++ bs) = digitsValue as * 10 ^ bs.length + digitsValue bs := by
  change Nat.ofDigitChars 10 (as ++ bs) 0 = _
  rw [Nat.ofDigitChars_append, Nat.ofDigitChars_eq_ofDigitChars_zero, Nat.mul_comm]
  rfl

theorem digitsValue_replicate_zero (n : Nat) : digitsValue (List.replicate n '0') = 0 :=
  Nat.ofDigitChars_replicate_zero

theorem digitsValue_toDigits (n : Nat) : digitsValue (Nat.toDigits 10 n) = n :=
  Nat.ofDigitChars_ten_toDigits

theorem isDigit_of_mem_toDigits {n : Nat} {c : Char} (h : c ∈ Nat.toDigits 10 n) :
    isDigit c = true :=
  Nat.isDigit_of_mem_toDigits (by decide) (by decide) h

/-- A sign before a digit is split off. -/
theorem sign_signed (negative : Bool) {c : Char} (hc : isDigit c = true) (cs : List Char) :
    sign (NumberFormat.signed negative (c :: cs)) = (negative, c :: cs) := by
  cases negative with
  | true => rfl
  | false =>
    simp only [NumberFormat.signed, Bool.false_eq_true, if_false]
    unfold sign
    split
    · rename_i e
      cases e
      cases hc
    · rename_i e
      cases e
      cases hc
    · rfl

end Numeral

/-! ## Places -/

/-- The places that are written. -/
def writtenPlaces (n : Nat) : List Char := trimEnd '0' (places n)

/-- The places that are written, behind a point; no point if there are none. -/
def placesText (n : Nat) : List Char :=
  match writtenPlaces n with
  | [] => []
  | ds => '.' :: ds

theorem placesText_eq (n : Nat) :
    placesText n = [] ∧ writtenPlaces n = [] ∨
      placesText n = '.' :: writtenPlaces n ∧ writtenPlaces n ≠ [] := by
  unfold placesText
  split
  · rename_i h
    exact .inl ⟨rfl, h⟩
  · rename_i h
    exact .inr ⟨rfl, h⟩

theorem writtenPlaces_append (n : Nat) :
    ∃ m, writtenPlaces n ++ List.replicate m '0' = places n := by
  refine ⟨((places n).reverse.takeWhile (· == '0')).length, ?_⟩
  have h : (places n).reverse.takeWhile (· == '0') =
      List.replicate ((places n).reverse.takeWhile (· == '0')).length '0' := by
    refine List.eq_replicate_of_mem fun c hc => ?_
    simpa using List.all_eq_true.1 List.all_takeWhile c hc
  rw [writtenPlaces, trimEnd, ← List.reverse_replicate, ← h, ← List.reverse_append,
    List.takeWhile_append_dropWhile, List.reverse_reverse]

theorem digitsValue_places {n : Nat} (h : n < 1000) : Numeral.digitsValue (places n) = n := by
  have e (m : Nat) : (Nat.digitChar (m % 10)).toNat - '0'.toNat = m % 10 :=
    Nat.toNat_digitChar_sub_48_of_lt_ten (Nat.mod_lt m (by decide))
  simp only [places, Numeral.digitsValue, List.map_cons, List.map_nil, List.foldl_cons,
    List.foldl_nil, e]
  omega

theorem isDigit_of_mem_places {n : Nat} {c : Char} (h : c ∈ places n) :
    Numeral.isDigit c = true := by
  obtain ⟨d, hd, rfl⟩ := List.mem_map.1 h
  have hd : d < 10 := by
    simp only [List.mem_cons, List.not_mem_nil, or_false] at hd
    omega
  exact Nat.isDigit_digitChar.trans (decide_eq_true hd)

theorem isDigit_of_mem_writtenPlaces {n : Nat} {c : Char} (h : c ∈ writtenPlaces n) :
    Numeral.isDigit c = true := by
  obtain ⟨m, e⟩ := writtenPlaces_append n
  exact isDigit_of_mem_places (e ▸ List.mem_append_left _ h)

theorem fraction_placesText (n : Nat) :
    Numeral.fraction (placesText n) = (writtenPlaces n, []) := by
  obtain ⟨e, e'⟩ | ⟨e, -⟩ := placesText_eq n
  · rw [e, e']; rfl
  · have h : ∀ c ∈ writtenPlaces n, Numeral.isDigit c = true := fun c =>
      isDigit_of_mem_writtenPlaces
    rw [e, Numeral.fraction]
    rw [← List.append_nil (writtenPlaces n), List.takeWhile_append_of_pos h,
      List.dropWhile_append_of_pos h]
    rfl

theorem span_placesText {ds : List Char} (h : ∀ c ∈ ds, Numeral.isDigit c = true) (n : Nat) :
    (ds ++ placesText n).takeWhile Numeral.isDigit = ds ∧
      (ds ++ placesText n).dropWhile Numeral.isDigit = placesText n := by
  refine Text.span_append h fun c hc => ?_
  obtain ⟨e, -⟩ | ⟨e, -⟩ := placesText_eq n <;> rw [e] at hc <;> cases hc
  rfl

/-! ## Numerals -/

/-- How a number of thousandths is written. Only a negative number has a sign. -/
def numeral (k : Int) : List Char := NumberFormat.signed (k < 0)
  (Nat.toDigits 10 (k.natAbs / 1000) ++ placesText (k.natAbs % 1000))

/-- Reads a decimal numeral with at most three places as a number of thousandths. -/
def readThousandths? (cs : List Char) : Option Int :=
  match Numeral.read? cs with
  | some (.decimal negative digits exponent) =>
    if -3 ≤ exponent then
      let magnitude : Int := (digits * 10 ^ (3 + exponent).toNat : Nat)
      some (if negative then -magnitude else magnitude)
    else none
  | _ => none

theorem read?_numeral (k : Int) :
    Numeral.read? (numeral k) = some (.decimal (k < 0)
      (Numeral.digitsValue (Nat.toDigits 10 (k.natAbs / 1000) ++ writtenPlaces (k.natAbs % 1000)))
      (0 - (writtenPlaces (k.natAbs % 1000)).length)) := by
  rw [numeral]
  have hds : ∀ c ∈ Nat.toDigits 10 (k.natAbs / 1000), Numeral.isDigit c = true := fun c =>
    Numeral.isDigit_of_mem_toDigits
  have hne : Nat.toDigits 10 (k.natAbs / 1000) ≠ [] := Nat.toDigits_ne_nil
  generalize Nat.toDigits 10 (k.natAbs / 1000) = ds at hds hne ⊢
  obtain ⟨hwhole, hrest⟩ := span_placesText hds (k.natAbs % 1000)
  have hs : Numeral.sign (NumberFormat.signed (decide (k < 0)) (ds ++ placesText (k.natAbs % 1000)))
      = (decide (k < 0), ds ++ placesText (k.natAbs % 1000)) := by
    cases ds with
    | nil => exact absurd rfl hne
    | cons d ds => exact Numeral.sign_signed _ (hds d List.mem_cons_self) _
  simp only [Numeral.read?, hs, hwhole, hrest, fraction_placesText]
  rw [if_neg (by simp [hne])]
  rfl

/-- What is written is read back. -/
theorem readThousandths?_numeral (k : Int) : readThousandths? (numeral k) = some k := by
  have hplaces := writtenPlaces_append (k.natAbs % 1000)
  have hvalue := digitsValue_places (Nat.mod_lt k.natAbs (by decide : 1000 > 0))
  simp only [readThousandths?, read?_numeral]
  generalize writtenPlaces (k.natAbs % 1000) = ds at hplaces ⊢
  obtain ⟨m, e⟩ := hplaces
  have hlength : ds.length + m = 3 := by
    have := congrArg List.length e
    simpa [places] using this
  have hexponent : (3 + (0 - (ds.length : Int))).toNat = m := by omega
  rw [if_pos (by omega), hexponent]
  have hmagnitude : Numeral.digitsValue (Nat.toDigits 10 (k.natAbs / 1000) ++ ds) * 10 ^ m =
      k.natAbs := by
    have h := Numeral.digitsValue_append (Nat.toDigits 10 (k.natAbs / 1000) ++ ds)
      (List.replicate m '0')
    rw [List.append_assoc, e, List.length_replicate, Numeral.digitsValue_replicate_zero,
      Nat.add_zero, Numeral.digitsValue_append, Numeral.digitsValue_toDigits, hvalue] at h
    rw [← h, places]
    simp only [List.length_map, List.length_cons, List.length_nil]
    omega
  rw [hmagnitude]
  by_cases hk : k < 0
  · simp only [hk, decide_true, if_true]
    congr 1
    omega
  · simp only [hk, decide_false, Bool.false_eq_true, if_false]
    congr 1
    omega

/-! ## Zeros at the end -/

theorem trimEnd_append (c : Char) (as bs : List Char) :
    trimEnd c (as ++ bs) = if trimEnd c bs = [] then trimEnd c as else as ++ trimEnd c bs := by
  unfold trimEnd
  rw [List.reverse_append, List.dropWhile_append]
  simp only [List.isEmpty_iff, List.reverse_eq_nil_iff]
  split
  · rfl
  · rw [List.reverse_append, List.reverse_reverse]

theorem trimEnd_eq_self {c : Char} {cs : List Char} (h : c ∉ cs) : trimEnd c cs = cs := by
  have hdrop : cs.reverse.dropWhile (· == c) = cs.reverse := by
    cases hcs : cs.reverse with
    | nil => rfl
    | cons d ds =>
      have hd : d ≠ c := by
        rintro rfl
        exact h (List.mem_reverse.1 (hcs ▸ List.mem_cons_self))
      simp [hd]
  rw [trimEnd, hdrop, List.reverse_reverse]

/-- Three places lose the zeros at their end, and then the point if nothing is left of them. -/
theorem trimEnd_threePlaces (negative : Bool) (n : Nat) :
    trimEnd '.' (trimEnd '0' (threePlaces negative n)) =
      NumberFormat.signed negative (Nat.toDigits 10 (n / 1000) ++ placesText (n % 1000)) := by
  have hsigned (cs ds : List Char) : NumberFormat.signed negative (cs ++ ds) =
      NumberFormat.signed negative cs ++ ds := by
    cases negative <;> rfl
  have hpoint : '.' ∉ NumberFormat.signed negative (Nat.toDigits 10 (n / 1000)) := by
    have hdigits : '.' ∉ Nat.toDigits 10 (n / 1000) := fun h =>
      absurd (Numeral.isDigit_of_mem_toDigits h) (by decide)
    cases negative with
    | false => exact hdigits
    | true => exact List.not_mem_cons_of_ne_of_not_mem (by decide) hdigits
  have hplaces : '.' ∉ writtenPlaces (n % 1000) := fun h =>
    absurd (isDigit_of_mem_writtenPlaces h) (by decide)
  rw [threePlaces, hsigned, hsigned, List.append_cons, trimEnd_append]
  change trimEnd '.' (if writtenPlaces (n % 1000) = [] then _ else
    _ ++ writtenPlaces (n % 1000)) = _
  generalize NumberFormat.signed negative (Nat.toDigits 10 (n / 1000)) = front at hpoint ⊢
  obtain ⟨htext, hnil⟩ | ⟨htext, hne⟩ := placesText_eq (n % 1000)
  · have hzero : trimEnd '0' (front ++ ['.']) = front ++ ['.'] := by
      rw [trimEnd_append]
      rfl
    rw [if_pos hnil, hzero, htext, trimEnd_append, List.append_nil]
    exact trimEnd_eq_self hpoint
  · rw [if_neg hne, htext, trimEnd_append, trimEnd_eq_self hplaces, if_neg hne, ← List.append_cons]

theorem numeral_ne_nil (k : Int) : numeral k ≠ [] := by
  intro h
  have := read?_numeral k
  rw [h] at this
  cases this

/-- A numeral for zero has no sign. -/
theorem numeral_ne_minus_zero (k : Int) : numeral k ≠ ['-', '0'] := by
  intro h
  have hread : readThousandths? ['-', '0'] = some 0 := by decide
  rw [← h, readThousandths?_numeral] at hread
  cases hread
  cases h

theorem signed_eq_numeral {negative : Bool} {n : Nat} (h : negative = true → n ≠ 0) :
    NumberFormat.signed negative (Nat.toDigits 10 (n / 1000) ++ placesText (n % 1000)) =
      numeral (if negative then -(n : Int) else n) := by
  cases negative with
  | false =>
    have hsign : decide ((n : Int) < 0) = false := decide_eq_false (by omega)
    simp only [numeral, Bool.false_eq_true, if_false, Int.natAbs_natCast, hsign]
  | true =>
    have hn := h rfl
    have hsign : decide (-(n : Int) < 0) = true := decide_eq_true (by omega)
    simp only [numeral, if_true, Int.natAbs_neg, Int.natAbs_natCast, hsign]

/-- The text that is left of three places without the zeros at their end is the numeral of the
double, unless it is that of a zero. -/
theorem toList_thousandths {v : Float} (h : v.isFinite = true) :
    (thousandths v).toList = numeral (inThousandths v) := by
  obtain ⟨negative, mantissa, exponent, e⟩ := exists_finite_of_isFinite h
  simp only [thousandths, toThreePlaces, inThousandths, e, Binary.inThousandths,
    trimEnd_threePlaces]
  generalize Binary.inParts 1000 mantissa exponent = n
  by_cases hzero : negative = true ∧ n = 0
  · obtain ⟨rfl, rfl⟩ := hzero
    decide
  · rw [signed_eq_numeral fun hneg hn => hzero ⟨hneg, hn⟩]
    generalize (if negative = true then -(n : Int) else n) = k
    split
    · rename_i hk
      exact absurd hk (numeral_ne_minus_zero k)
    · rename_i hk
      exact absurd hk (numeral_ne_nil k)
    · rw [String.toList_ofList]

/-- A numeral holds no other characters. -/
theorem mem_numeral {k : Int} {c : Char} (h : c ∈ numeral k) :
    c = '-' ∨ c = '.' ∨ Numeral.isDigit c = true := by
  have hsigned {b : Bool} {cs : List Char} (h : c ∈ NumberFormat.signed b cs) :
      c = '-' ∨ c ∈ cs := by
    cases b with
    | false => exact .inr h
    | true => exact List.mem_cons.1 h
  refine (hsigned h).imp_right fun h => ?_
  obtain h | h := List.mem_append.1 h
  · exact .inr (Numeral.isDigit_of_mem_toDigits h)
  · obtain ⟨e, -⟩ | ⟨e, -⟩ := placesText_eq (k.natAbs % 1000) <;> rw [e] at h
    · cases h
    · exact (List.mem_cons.1 h).imp_right isDigit_of_mem_writtenPlaces

end Tablature
