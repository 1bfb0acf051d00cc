import Tablature.Proofs.Thousandths

/-!
# Numerals in canonical form

A finite double is written to three places with no character to spare: no zero stands
in front of another digit of the whole part, none ends the places, and zero has no
sign. What is written denotes the thousandth that the double is rounded to, so two
doubles are written alike if and only if they are rounded to the same one.

* `CanonicalNumeral`: the numerals of this form, their texts and what they denote;
* `CanonicalNumeral.ofThousandths`: the one for a whole number of thousandths;
* `IsNearest.unique`: no number is rounded in two ways;
* `thousandths_canonical`: what is written for finite doubles.
-/

namespace Tablature

/-- A number is rounded to one whole number: of two that are equally near, only one is even. -/
theorem IsNearest.unique {j k : Int} {r : Rat} (hj : IsNearest j r) (hk : IsNearest k r) :
    j = k := by
  have hnear : |((j - k : Int) : Rat)| ≤ 1 := by
    calc |((j - k : Int) : Rat)| = |(j - r) - (k - r)| := by push_cast; ring_nf
      _ ≤ |j - r| + |k - r| := abs_sub _ _
      _ ≤ 1 / 2 + 1 / 2 := add_le_add hj.near hk.near
      _ = 1 := by norm_num
  have hdist : |j - k| ≤ 1 := by exact_mod_cast hnear
  obtain ⟨hlower, hupper⟩ := abs_le.1 hdist
  by_contra hne
  -- Neighbours that are both nearest are both half a step away, so both would be even.
  have htie : |(j : Rat) - r| = 1 / 2 ∧ |(k : Rat) - r| = 1 / 2 := by
    have hone : |((j - k : Int) : Rat)| = 1 := by
      have : |j - k| = 1 := by
        obtain h | h : j - k = 1 ∨ j - k = -1 := by omega
        · rw [h]; rfl
        · rw [h]; rfl
      exact_mod_cast this
    have hsum : (1 : Rat) ≤ |j - r| + |k - r| := by
      calc (1 : Rat) = |(j - r) - (k - r)| := by rw [← hone]; push_cast; ring_nf
        _ ≤ |j - r| + |k - r| := abs_sub _ _
    exact ⟨by linarith [hj.near, hk.near], by linarith [hj.near, hk.near]⟩
  obtain ⟨a, rfl⟩ := hj.even htie.1
  obtain ⟨b, rfl⟩ := hk.even htie.2
  omega

/-- The digits of a whole number have no zero in front, unless it is zero. -/
theorem head?_toDigits_ne_zero {n : Nat} (hn : n ≠ 0) : (Nat.toDigits 10 n).head? ≠ some '0' := by
  induction n using Nat.strong_induction_on with
  | _ n ih =>
    rw [Nat.toDigits_eq_if (by decide)]
    split
    · simpa using hn
    · rename_i hlarge
      rw [List.head?_append_of_ne_nil _ Nat.toDigits_ne_nil]
      exact ih (n / 10) (by omega) (by omega)

/-- A decimal numeral with at most three places and no character to spare. -/
structure CanonicalNumeral where
  negative : Bool
  whole : List Char
  places : List Char
  whole_ne_nil : whole ≠ []
  isDigit_whole : ∀ d ∈ whole, Numeral.isDigit d = true
  /-- No zero stands in front of another digit. -/
  eq_of_head_whole : whole.head? = some '0' → whole = ['0']
  isDigit_places : ∀ d ∈ places, Numeral.isDigit d = true
  length_places : places.length ≤ 3
  /-- No zero ends the places. -/
  last_places : places.getLast? ≠ some '0'
  /-- Zero has no sign. -/
  ne_of_negative : negative = true → whole = ['0'] → places ≠ []

namespace CanonicalNumeral

/-- The numeral written out: a point stands only before a place. -/
def text (n : CanonicalNumeral) : List Char :=
  (if n.negative then ['-'] else []) ++ n.whole ++
    match n.places with
    | [] => []
    | d :: ds => '.' :: d :: ds

/-- The number that the numeral denotes. -/
def value (n : CanonicalNumeral) : Rat :=
  (if n.negative then -1 else 1) *
    (Numeral.digitsValue n.whole + Numeral.digitsValue n.places / 10 ^ n.places.length)

theorem text_ne_nil (n : CanonicalNumeral) : n.text ≠ [] := by
  simp [text, n.whole_ne_nil]

theorem text_ne_minus_zero (n : CanonicalNumeral) : n.text ≠ ['-', '0'] := by
  intro h
  obtain ⟨c, cs, hwhole⟩ := List.exists_cons_of_ne_nil n.whole_ne_nil
  have hc : Numeral.isDigit c = true := n.isDigit_whole c (hwhole ▸ List.mem_cons_self)
  cases hnegative : n.negative with
  | false =>
    simp only [text, hnegative, hwhole, Bool.false_eq_true, if_false, List.nil_append,
      List.cons_append, List.cons.injEq] at h
    rw [h.1] at hc
    cases hc
  | true =>
    cases hplaces : n.places with
    | nil =>
      simp only [text, hnegative, hplaces, if_true, List.append_nil, List.cons_append,
        List.nil_append, List.cons.injEq, true_and] at h
      exact n.ne_of_negative hnegative h hplaces
    | cons d ds =>
      have := congrArg List.length h
      simp [text, hnegative, hplaces, hwhole] at this

/-- The last character is a digit. -/
theorem getLast?_text_ne_point (n : CanonicalNumeral) : n.text.getLast? ≠ some '.' := by
  have hlast {ds : List Char} (hne : ds ≠ []) (hds : ∀ d ∈ ds, Numeral.isDigit d = true) :
      ds.getLast? ≠ some '.' := by
    intro h
    have := hds '.' (List.mem_of_getLast? h)
    cases this
  unfold text
  cases hplaces : n.places with
  | nil =>
    rw [List.append_nil, List.getLast?_append_of_ne_nil _ n.whole_ne_nil]
    exact hlast n.whole_ne_nil n.isDigit_whole
  | cons d ds =>
    rw [List.getLast?_append_of_ne_nil _ (List.cons_ne_nil _ _), List.getLast?_cons_cons]
    exact hlast (List.cons_ne_nil _ _) fun c hc => n.isDigit_places c (hplaces ▸ hc)

end CanonicalNumeral

/-! ## Thousandths -/

/-- The places that are written end in no zero. -/
theorem getLast?_writtenPlaces (n : Nat) : (writtenPlaces n).getLast? ≠ some '0' := by
  intro h
  rw [writtenPlaces, trimEnd, List.getLast?_reverse] at h
  have := List.head?_dropWhile_not (· == '0') (places n).reverse
  rw [h] at this
  cases this

theorem length_writtenPlaces_le (n : Nat) : (writtenPlaces n).length ≤ 3 := by
  obtain ⟨m, e⟩ := writtenPlaces_append n
  have := congrArg List.length e
  simp only [places, List.length_append, List.length_map, List.length_cons, List.length_nil] at this
  omega

/-- The zeros that are left out are worth nothing. -/
theorem digitsValue_writtenPlaces {n : Nat} (h : n < 1000) :
    (Numeral.digitsValue (writtenPlaces n) : Rat) / 10 ^ (writtenPlaces n).length = n / 1000 := by
  obtain ⟨m, e⟩ := writtenPlaces_append n
  have hlength : (writtenPlaces n).length + m = 3 := by
    have := congrArg List.length e
    simpa [places] using this
  have hvalue : Numeral.digitsValue (writtenPlaces n) * 10 ^ m = n := by
    have := congrArg Numeral.digitsValue e
    rwa [Numeral.digitsValue_append, List.length_replicate, Numeral.digitsValue_replicate_zero,
      Nat.add_zero, digitsValue_places h] at this
  have hpow : (1000 : Rat) = 10 ^ (writtenPlaces n).length * 10 ^ m := by
    rw [← pow_add, hlength]
    norm_num
  have hvalue : (Numeral.digitsValue (writtenPlaces n) : Rat) * 10 ^ m = n := by
    exact_mod_cast hvalue
  rw [← hvalue, hpow]
  field_simp

theorem writtenPlaces_ne_nil {n : Nat} (h : n < 1000) (hn : n ≠ 0) : writtenPlaces n ≠ [] := by
  intro hnil
  have hvalue := digitsValue_writtenPlaces h
  rw [hnil] at hvalue
  have : (n : Rat) = 0 := by simpa [Numeral.digitsValue] using hvalue.symm
  exact hn (by exact_mod_cast this)

/-- The numeral of a whole number of thousandths. -/
def CanonicalNumeral.ofThousandths (k : Int) : CanonicalNumeral where
  negative := k < 0
  whole := Nat.toDigits 10 (k.natAbs / 1000)
  places := writtenPlaces (k.natAbs % 1000)
  whole_ne_nil := Nat.toDigits_ne_nil
  isDigit_whole _ := Numeral.isDigit_of_mem_toDigits
  eq_of_head_whole h := by
    by_cases hzero : k.natAbs / 1000 = 0
    · rw [hzero]; rfl
    · exact absurd h (head?_toDigits_ne_zero hzero)
  isDigit_places _ := isDigit_of_mem_writtenPlaces
  length_places := length_writtenPlaces_le _
  last_places := getLast?_writtenPlaces _
  ne_of_negative hk hwhole := by
    have hzero : k.natAbs / 1000 = 0 := by
      have := congrArg Numeral.digitsValue hwhole
      rwa [Numeral.digitsValue_toDigits] at this
    have hk : k < 0 := of_decide_eq_true hk
    exact writtenPlaces_ne_nil (Nat.mod_lt _ (by decide)) (by omega)

namespace CanonicalNumeral

theorem text_ofThousandths (k : Int) : (ofThousandths k).text = numeral k := by
  rw [numeral, text, ofThousandths, List.append_assoc]
  obtain ⟨e, hnil⟩ | ⟨e, hne⟩ := placesText_eq (k.natAbs % 1000)
  · by_cases hk : k < 0 <;> simp [NumberFormat.signed, hk, e, hnil]
  · obtain ⟨d, ds, hcons⟩ := List.exists_cons_of_ne_nil hne
    by_cases hk : k < 0 <;> simp [NumberFormat.signed, hk, e, hcons]

theorem value_ofThousandths (k : Int) : (ofThousandths k).value = k / 1000 := by
  have hplaces := digitsValue_writtenPlaces (Nat.mod_lt k.natAbs (by decide : 1000 > 0))
  have hsplit : ((k.natAbs / 1000 : Nat) : Rat) + (k.natAbs % 1000 : Nat) / 1000 =
      k.natAbs / 1000 := by
    have : (k.natAbs : Rat) = 1000 * (k.natAbs / 1000 : Nat) + (k.natAbs % 1000 : Nat) := by
      exact_mod_cast (Nat.div_add_mod k.natAbs 1000).symm
    rw [this]
    ring
  simp only [value, ofThousandths, Numeral.digitsValue_toDigits, hplaces, hsplit,
    decide_eq_true_eq]
  split
  · rename_i hk
    rw [Nat.cast_natAbs, abs_of_neg hk]
    push_cast
    ring
  · rename_i hk
    rw [Nat.cast_natAbs, abs_of_nonneg (not_lt.1 hk), one_mul]

end CanonicalNumeral

/-- Whole numbers of thousandths are written alike only if they are the same. -/
theorem numeral_injective : Function.Injective numeral := by
  intro j k h
  have hread : some j = some k := by
    rw [← readThousandths?_numeral j, ← readThousandths?_numeral k, h]
  exact Option.some.inj hread

/-- A finite double is written as the canonical numeral of the thousandth that is nearest to its
exact value, the even one of two that are equally near; and two finite doubles are written alike if
and only if they are rounded to the same thousandth. -/
theorem thousandths_canonical {v w : Float} (hv : v.isFinite = true) (hw : w.isFinite = true) :
    (∃ (n : CanonicalNumeral) (k : Int), (thousandths v).toList = n.text ∧ n.value = k / 1000 ∧
      IsNearest k (1000 * (Binary.ofFloat v).value)) ∧
    (thousandths v).toList ≠ ['-', '0'] ∧ (thousandths v).toList ≠ [] ∧
    (thousandths v).toList.getLast? ≠ some '.' ∧
    (thousandths v = thousandths w ↔ ∃ k, IsNearest k (1000 * (Binary.ofFloat v).value) ∧
      IsNearest k (1000 * (Binary.ofFloat w).value)) := by
  have hnear (u : Float) : IsNearest (inThousandths u) (1000 * (Binary.ofFloat u).value) :=
    Binary.isNearest_inThousandths _
  have htext :
      (thousandths v).toList = (CanonicalNumeral.ofThousandths (inThousandths v)).text := by
    rw [toList_thousandths hv, CanonicalNumeral.text_ofThousandths]
  have hsame : thousandths v = thousandths w ↔ inThousandths v = inThousandths w := by
    rw [← String.toList_inj, toList_thousandths hv, toList_thousandths hw]
    exact numeral_injective.eq_iff
  refine ⟨⟨_, _, htext, CanonicalNumeral.value_ofThousandths _, hnear v⟩, ?_, ?_, ?_, ?_⟩
  · rw [htext]; exact CanonicalNumeral.text_ne_minus_zero _
  · rw [htext]; exact CanonicalNumeral.text_ne_nil _
  · rw [htext]; exact CanonicalNumeral.getLast?_text_ne_point _
  · rw [hsame]
    constructor
    · intro h
      exact ⟨_, hnear v, h ▸ hnear w⟩
    · rintro ⟨k, hk, hk'⟩
      rw [(hnear v).unique hk, (hnear w).unique hk']

/-- A sixteenth is halfway between two thousandths, and written like the even one; so is a number
a little below it. -/
theorem thousandths_canonical_sixteenth :
    let v : Float := 0.0625
    let w : Float := 0.062
    v.isFinite = true ∧ w.isFinite = true ∧ (thousandths v).toList = ['0', '.', '0', '6', '2'] ∧
      (∃ (n : CanonicalNumeral) (k : Int), (thousandths v).toList = n.text ∧ n.value = k / 1000 ∧
        IsNearest k (1000 * (Binary.ofFloat v).value)) ∧
      (thousandths v).toList ≠ ['-', '0'] ∧ (thousandths v).toList ≠ [] ∧
      (thousandths v).toList.getLast? ≠ some '.' ∧
      (thousandths v = thousandths w ↔ ∃ k, IsNearest k (1000 * (Binary.ofFloat v).value) ∧
        IsNearest k (1000 * (Binary.ofFloat w).value)) := by
  intro v w
  have hv : v.isFinite = true := by decide +kernel
  have hw : w.isFinite = true := by decide +kernel
  exact ⟨hv, hw, by decide +kernel, thousandths_canonical hv hw⟩

end Tablature
