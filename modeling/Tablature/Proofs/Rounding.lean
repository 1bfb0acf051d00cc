import Tablature.Proofs.Thousandths

/-!
# Rounding

A sum, a difference or a product of doubles is rounded to the nearest double, an even one
if two are equally near. What is said here is said of numbers that are taken apart, with
exponents of any size; that large ones become infinite when they are packed comes later.

* `HasStep`, `IsRounded`: the distance of doubles around a rational, and the nearest of them;
* `IsRounded.le`, `IsRounded.eq`, `IsRounded.abs_sub_le`: rounding is monotone, keeps what is
  representable, and changes a rational by half of a step at most;
* `Tells.isNearest`: the two bits that are kept of what is cut off are enough to round;
* `roundsTo_add`, `roundsTo_sub`, `roundsTo_mul`: the operations.
-/

namespace Tablature

/-! ## Rounding to a step -/

/-- The doubles around a rational are two to the power of `t` apart: the rational has as many as
fifty-three bits before that place, or fewer if there is no smaller step. -/
structure HasStep (x : Rat) (t : Int) : Prop where
  least : -1074 ≤ t
  lt : |x| < 2 ^ (t + 53)
  le : t = -1074 ∨ 2 ^ (t + 52) ≤ |x|

/-- The first rational is rounded to the second, the nearest whole number of steps. -/
def IsRounded (x r : Rat) : Prop :=
  ∃ t k : Int, HasStep x t ∧ IsNearest k (x / 2 ^ t) ∧ r = k * 2 ^ t

/-- A rational with at most fifty-three bits, none of them below the least step. -/
def IsRepresentable (z : Rat) : Prop :=
  ∃ k e : Int, |k| ≤ 2 ^ 53 ∧ -1074 ≤ e ∧ z = k * 2 ^ e

theorem HasStep.neg {x : Rat} {t : Int} (h : HasStep x t) : HasStep (-x) t :=
  ⟨h.least, (abs_neg x).symm ▸ h.lt, (abs_neg x).symm ▸ h.le⟩

theorem IsRounded.neg {x r : Rat} (h : IsRounded x r) : IsRounded (-x) (-r) := by
  obtain ⟨t, k, ht, hk, rfl⟩ := h
  refine ⟨t, -k, ht.neg, ?_, by push_cast; ring⟩
  rw [neg_div]
  exact hk.neg

theorem IsRepresentable.neg {z : Rat} (h : IsRepresentable z) : IsRepresentable (-z) := by
  obtain ⟨k, e, hk, he, rfl⟩ := h
  exact ⟨-k, e, (abs_neg k).symm ▸ hk, he, by push_cast; ring⟩

theorem isRepresentable_zero : IsRepresentable 0 := ⟨0, 0, by decide, by decide, by simp⟩

theorem isRounded_zero : IsRounded 0 0 := by
  refine ⟨-1074, 0, ⟨le_refl _, ?_, .inl rfl⟩, ⟨?_, fun _ => Even.zero⟩, by simp⟩
  · rw [abs_zero]
    positivity
  · norm_num

/-- A whole number not below a rational is not below the nearest to it. -/
theorem IsNearest.le {k j : Int} {y : Rat} (h : IsNearest k y) (hj : y ≤ j) : k ≤ j := by
  by_contra hlt
  have hsucc : ((j + 1 : Int) : Rat) ≤ k := by exact_mod_cast Int.add_one_le_iff.2 (not_le.1 hlt)
  have hnear := (abs_le.1 h.near).2
  push_cast at hsucc
  linarith

theorem IsNearest.ge {k j : Int} {y : Rat} (h : IsNearest k y) (hj : j ≤ y) : j ≤ k :=
  neg_le_neg_iff.1 (h.neg.le (by push_cast; exact neg_le_neg hj))

/-- What is representable, and not below a rational, is not below the next whole number of steps. -/
theorem exists_steps_between {x z : Rat} {t : Int} (ht : HasStep x t) (hz : IsRepresentable z)
    (h : x ≤ z) : ∃ j : Int, x ≤ j * 2 ^ t ∧ j * 2 ^ t ≤ z := by
  obtain ⟨k, e, hk, he, rfl⟩ := hz
  by_cases hte : t ≤ e
  · -- The steps of a larger number are whole numbers of smaller ones.
    obtain ⟨n, rfl⟩ := Int.le.dest hte
    have e' : ((k * 2 ^ n : Int) : Rat) * 2 ^ t = k * 2 ^ (t + n) := by
      rw [zpow_add₀ two_ne_zero, zpow_natCast]
      push_cast
      ring
    exact ⟨k * 2 ^ n, e' ▸ h, e'.le⟩
  · -- A number with smaller steps lies between the least ones that have steps of this size.
    have hlarge : (2 : Rat) ^ (t + 52) ≤ |x| := ht.le.resolve_left (by omega)
    have hsmall : |(k : Rat) * 2 ^ e| ≤ 2 ^ (t + 52) := by
      have hk' : |(k : Rat)| ≤ 2 ^ (53 : Int) := by exact_mod_cast hk
      rw [abs_mul, abs_of_pos (show (0 : Rat) < 2 ^ e from zpow_pos two_pos e)]
      calc |(k : Rat)| * 2 ^ e ≤ 2 ^ (53 : Int) * 2 ^ e := by gcongr
        _ = 2 ^ (53 + e) := (zpow_add₀ two_ne_zero _ _).symm
        _ ≤ 2 ^ (t + 52) := zpow_le_zpow_right₀ one_le_two (by omega)
    have hpow : (2 : Rat) ^ (t + 52) = 2 ^ 52 * 2 ^ t := by
      rw [zpow_add₀ two_ne_zero, mul_comm]
      rfl
    obtain ⟨hlo, hhi⟩ := abs_le.1 hsmall
    rcases abs_cases x with ⟨hx, -⟩ | ⟨hx, -⟩
    · refine ⟨2 ^ 52, ?_, ?_⟩ <;> push_cast <;> linarith
    · refine ⟨-2 ^ 52, ?_, ?_⟩ <;> push_cast <;> linarith

namespace IsRounded

variable {x r z : Rat}

/-- Rounding does not go past what is representable. -/
theorem le (h : IsRounded x r) (hz : IsRepresentable z) (hx : x ≤ z) : r ≤ z := by
  obtain ⟨t, k, ht, hk, rfl⟩ := h
  obtain ⟨j, hxj, hjz⟩ := exists_steps_between ht hz hx
  have hpos : (0 : Rat) < 2 ^ t := zpow_pos two_pos t
  have hkj : k ≤ j := hk.le ((div_le_iff₀ hpos).2 hxj)
  calc (k : Rat) * 2 ^ t ≤ j * 2 ^ t := by gcongr
    _ ≤ z := hjz

theorem ge (h : IsRounded x r) (hz : IsRepresentable z) (hx : z ≤ x) : z ≤ r :=
  neg_le_neg_iff.1 (h.neg.le hz.neg (neg_le_neg hx))

/-- What is representable is kept. -/
theorem eq (h : IsRounded x r) (hx : IsRepresentable x) : r = x :=
  le_antisymm (h.le hx le_rfl) (h.ge hx le_rfl)

/-- Rounding changes a rational by half of a step at most. -/
theorem abs_sub_le (h : IsRounded x r) : |r - x| ≤ |x| / 2 ^ 53 + 2 ^ (-1075 : Int) := by
  obtain ⟨t, k, ht, hk, rfl⟩ := h
  have hpos : (0 : Rat) < 2 ^ t := zpow_pos two_pos t
  have hhalf : |k * 2 ^ t - x| ≤ 2 ^ t / 2 := by
    have e : k * 2 ^ t - x = (k - x / 2 ^ t) * 2 ^ t := by field_simp
    rw [e, abs_mul, abs_of_pos hpos]
    have := hk.near
    calc |k - x / 2 ^ t| * 2 ^ t ≤ 1 / 2 * 2 ^ t := by gcongr
      _ = 2 ^ t / 2 := by ring
  refine hhalf.trans ?_
  rcases ht.le with rfl | hle
  · have e : (2 : Rat) ^ (-1074 : Int) / 2 = 2 ^ (-1075 : Int) := by
      rw [show (-1074 : Int) = -1075 + 1 by rfl, zpow_add_one₀ two_ne_zero]
      ring
    rw [e]
    exact le_add_of_nonneg_left (by positivity)
  · have e : (2 : Rat) ^ t / 2 = 2 ^ (t + 52) / 2 ^ 53 := by
      rw [zpow_add₀ two_ne_zero, show (2 : Rat) ^ (52 : Int) = 2 ^ 52 from rfl]
      ring
    rw [e]
    calc (2 : Rat) ^ (t + 52) / 2 ^ 53 ≤ |x| / 2 ^ 53 := by gcongr
      _ ≤ _ := le_add_of_nonneg_right (by positivity)

end IsRounded

namespace Double

open Float.Model Float.Model.UnpackedFloat

/-! ## Mantissas that are shortened -/

theorem mantissa_shiftRight (n : Nat) (m : ExtendedMantissa) :
    (m >>> n).mantissa = m.mantissa / 2 ^ n := by
  induction n with
  | zero => exact (Nat.div_one _).symm
  | succ n ih =>
    change (m >>> n).mantissa / 2 = _
    rw [ih, Nat.div_div_eq_div_mul, Nat.pow_succ]

theorem mantissa_ofMantissaAndAccuracy (m : Nat) (a : Accuracy) :
    (ExtendedMantissa.ofMantissaAndAccuracy m a).mantissa = m := by
  cases a with
  | exact => rfl
  | inexact o => cases o <;> rfl

/-- What the two bits after a mantissa say of the rest that is cut off: whether it reaches one half,
and whether there is something else in it. -/
def IsRest (x : Rat) : Bool → Bool → Prop
  | false, false => x = 0
  | false, true => 0 < x ∧ x < 1 / 2
  | true, false => x = 1 / 2
  | true, true => 1 / 2 < x ∧ x < 1

/-- The mantissa and its two bits tell a rational as far as rounding needs it. -/
def Tells (em : ExtendedMantissa) (y : Rat) : Prop :=
  IsRest (y - em.mantissa) em.roundBit em.stickyBit

/-- One more bit is cut off. -/
theorem IsRest.half {x : Rat} {roundBit stickyBit : Bool} (h : IsRest x roundBit stickyBit)
    {p : Nat} (hp : p < 2) : IsRest ((p + x) / 2) (p != 0) (roundBit || stickyBit) := by
  obtain rfl | rfl : p = 0 ∨ p = 1 := by omega
  all_goals
    cases roundBit <;> cases stickyBit <;>
      simp only [IsRest, Nat.reduceBNe, Bool.or_true, Bool.or_false, Nat.cast_zero,
        Nat.cast_one] at h ⊢
  all_goals first | linarith | exact ⟨by linarith, by linarith⟩

theorem tells_exact (m : Nat) : Tells (.ofMantissaAndAccuracy m .exact) m := sub_self _

theorem Tells.shiftRightOne {em : ExtendedMantissa} {y : Rat} (h : Tells em y) :
    Tells em.shiftRightOne (y / 2) := by
  have hm : (em.mantissa : Rat) = 2 * (em.mantissa / 2 : Nat) + (em.mantissa % 2 : Nat) := by
    exact_mod_cast (Nat.div_add_mod em.mantissa 2).symm
  have hrest := h.half (Nat.mod_lt em.mantissa two_pos)
  have e : (((em.mantissa % 2 : Nat) : Rat) + (y - em.mantissa)) / 2 =
      y / 2 - (em.mantissa / 2 : Nat) := by
    rw [hm]
    ring
  rw [e] at hrest
  exact hrest

theorem Tells.shiftRight {em : ExtendedMantissa} {y : Rat} (h : Tells em y) (n : Nat) :
    Tells (em >>> n) (y / 2 ^ n) := by
  induction n with
  | zero =>
    rw [pow_zero, div_one]
    exact h
  | succ n ih =>
    have hstep := ih.shiftRightOne
    rw [div_div, ← pow_succ] at hstep
    exact hstep

/-- The mantissa that is rounded by its two bits is the nearest. -/
theorem Tells.isNearest {em : ExtendedMantissa} {y : Rat} (h : Tells em y) :
    IsNearest em.roundedMantissa y := by
  obtain ⟨m, roundBit, stickyBit⟩ := em
  obtain ⟨x, rfl⟩ : ∃ x, y = m + x := ⟨y - m, by ring⟩
  rw [Tells, add_sub_cancel_left] at h
  cases roundBit <;> cases stickyBit
  · exact isNearest_of_lt_half h.ge (h.trans_lt one_half_pos)
  · exact isNearest_of_lt_half h.1.le h.2
  · rw [show x = 1 / 2 from h]
    exact isNearest_half m
  · exact isNearest_of_half_lt h.1 h.2.le


/-! ## Canonical numbers -/

/-- The sign of a number as a factor. -/
def factor : Sign → Rat
  | .negative => -1
  | .positive => 1

theorem factor_neg (s : Sign) : factor (-s) = -factor s := by
  cases s
  · exact (neg_neg 1).symm
  · rfl

theorem factor_mul (s t : Sign) : factor (s * t) = factor s * factor t := by
  cases s <;> cases t
  · exact (by norm_num : (1 : Rat) = -1 * -1)
  · exact (by norm_num : (-1 : Rat) = -1 * 1)
  · exact (by norm_num : (-1 : Rat) = 1 * -1)
  · exact (by norm_num : (1 : Rat) = 1 * 1)

theorem cast_apply (s : Sign) (m : Int) : ((s.apply m : Int) : Rat) = factor s * m := by
  cases s
  · exact (Int.cast_neg m).trans (neg_one_mul _).symm
  · exact (one_mul _).symm

theorem isRounded_factor {x r : Rat} (h : IsRounded x r) (s : Sign) :
    IsRounded (factor s * x) (factor s * r) := by
  cases s
  · simpa only [factor, neg_one_mul] using h.neg
  · simpa only [factor, one_mul] using h

/-- A mantissa of fifty-three bits, or of fewer if the exponent is the least. -/
structure IsCanonical (m : Nat) (e : Int) : Prop where
  lt : m < 2 ^ 53
  least : -1074 ≤ e
  le : e = -1074 ∨ 2 ^ 52 ≤ m

theorem IsCanonical.hasStep {m : Nat} {e : Int} (h : IsCanonical m e) :
    HasStep (m * 2 ^ e) e := by
  have hpos : (0 : Rat) < 2 ^ e := zpow_pos two_pos e
  have habs : |(m : Rat) * 2 ^ e| = m * 2 ^ e := abs_of_nonneg (by positivity)
  refine ⟨h.least, ?_, h.le.imp_right fun hm => ?_⟩
  · rw [habs, add_comm, zpow_add₀ two_ne_zero]
    exact mul_lt_mul_of_pos_right (by exact_mod_cast h.lt) hpos
  · rw [habs, add_comm, zpow_add₀ two_ne_zero]
    exact mul_le_mul_of_nonneg_right (by exact_mod_cast hm) hpos.le

/-- The number is finite, in canonical form, and worth the rational. -/
inductive Stands : UnpackedFloat → Rat → Prop where
  | zero {s : Sign} : Stands (.zero s) 0
  | finite {s : Sign} {m : Nat} {e : Int} {hm : 0 < m} :
    IsCanonical m e → Stands (.finite s m e hm) (factor s * (m * 2 ^ e))

/-- The number is worth what the rational is rounded to, however large that is. -/
def RoundsTo (x : Rat) (u : UnpackedFloat) : Prop := ∃ r, Stands u r ∧ IsRounded x r

/-- A canonical number is rounded to itself. -/
theorem Stands.roundsTo {u : UnpackedFloat} {r : Rat} (h : Stands u r) : RoundsTo r u := by
  refine ⟨r, h, ?_⟩
  cases h with
  | zero => exact isRounded_zero
  | @finite s m e _ hc =>
    refine isRounded_factor ⟨e, m, hc.hasStep, ?_, rfl⟩ s
    rw [mul_div_cancel_right₀ _ (zpow_pos two_pos e).ne']
    exact ⟨by simp, fun h => by simp at h⟩

/-! ## Rounding a mantissa -/

/-- By how many bits a mantissa is shortened for its exponent. -/
def shortening (m : Nat) (e : Int) : Nat :=
  (Format.binary64.targetExponent (totalExponent m e) - e).toNat

/-- The exponent that a number has after rounding, but for a carry. -/
def step (m : Nat) (e : Int) : Int := Format.binary64.targetExponent (totalExponent m e)

theorem step_eq (m : Nat) (e : Int) : step m e = max ((m.log2 : Int) + 1 + e - 53) (-1074) := rfl

theorem shortening_eq (m : Nat) (e : Int) : shortening m e = (step m e - e).toNat := rfl

theorem hasStep_step {m : Nat} (hm : m ≠ 0) (e : Int) : HasStep (m * 2 ^ e) (step m e) := by
  have hpos : (0 : Rat) < 2 ^ e := zpow_pos two_pos e
  have habs : |(m : Rat) * 2 ^ e| = m * 2 ^ e := abs_of_nonneg (by positivity)
  have hlt : (m : Rat) < 2 ^ ((m.log2 : Int) + 1) := by exact_mod_cast Nat.lt_log2_self
  have hle : (2 : Rat) ^ (m.log2 : Int) ≤ m := by exact_mod_cast Nat.log2_self_le hm
  have hs := step_eq m e
  refine ⟨by omega, ?_, ?_⟩
  · rw [habs]
    calc (m : Rat) * 2 ^ e < 2 ^ ((m.log2 : Int) + 1) * 2 ^ e := by gcongr
      _ = 2 ^ ((m.log2 : Int) + 1 + e) := (zpow_add₀ two_ne_zero _ _).symm
      _ ≤ 2 ^ (step m e + 53) := zpow_le_zpow_right₀ one_le_two (by omega)
  · refine or_iff_not_imp_left.2 fun hne => ?_
    rw [habs]
    calc (2 : Rat) ^ (step m e + 52) = 2 ^ ((m.log2 : Int) + e) := by congr 1; omega
      _ = 2 ^ (m.log2 : Int) * 2 ^ e := zpow_add₀ two_ne_zero _ _
      _ ≤ m * 2 ^ e := by gcongr

/-- The mantissa that is left when a number is shortened and rounded. -/
def nearestSteps (m : Nat) (e : Int) : Nat :=
  (ExtendedMantissa.ofMantissaAndAccuracy m .exact >>> shortening m e).roundedMantissa

theorem isNearest_nearestSteps {m : Nat} {e : Int} (he : e ≤ step m e) :
    IsNearest (nearestSteps m e) (m * 2 ^ e / 2 ^ step m e) := by
  have hn : ((shortening m e : Nat) : Int) = step m e - e := by rw [shortening_eq]; omega
  have hshift : (m : Rat) / 2 ^ shortening m e = m * 2 ^ e / 2 ^ step m e := by
    have hpos : (0 : Rat) < 2 ^ step m e := zpow_pos two_pos _
    rw [← zpow_natCast, hn, zpow_sub₀ two_ne_zero]
    field_simp
  exact hshift ▸ ((tells_exact m).shiftRight (shortening m e)).isNearest

/-- The nearest number of steps has fifty-three bits, or it is the next power of two. -/
theorem bounds_of_isNearest {x : Rat} {t : Int} {k : Nat} (hx : 0 ≤ x) (ht : HasStep x t)
    (hk : IsNearest k (x / 2 ^ t)) : k ≤ 2 ^ 53 ∧ (t = -1074 ∨ 2 ^ 52 ≤ k) := by
  have hpos : (0 : Rat) < 2 ^ t := zpow_pos two_pos t
  have hpow (n : Nat) : (2 : Rat) ^ (t + n) = ((2 ^ n : Int) : Rat) * 2 ^ t := by
    rw [zpow_add₀ two_ne_zero, zpow_natCast, mul_comm]
    push_cast
    rfl
  have hlt := ht.lt
  rw [abs_of_nonneg hx] at hlt
  constructor
  · have h : (k : Int) ≤ 2 ^ 53 := hk.le ((div_le_iff₀ hpos).2 ((hpow 53) ▸ hlt.le))
    exact_mod_cast h
  · refine ht.le.imp_right fun hle => ?_
    rw [abs_of_nonneg hx] at hle
    have h : (2 ^ 52 : Int) ≤ k := hk.ge ((le_div_iff₀ hpos).2 ((hpow 52) ▸ hle))
    exact_mod_cast h

/-- A number of steps in canonical form, one bit shorter if rounding has carried. -/
def ofSteps (s : Sign) (k : Nat) (t : Int) : UnpackedFloat :=
  if h : k / 2 ^ shortening k t = 0 then .zero s
  else .finite s (k / 2 ^ shortening k t) (t + shortening k t) (Nat.pos_of_ne_zero h)

theorem roundWithAccuracy_eq {m : Nat} {e : Int} (s : Sign) (he : e ≤ step m e) :
    roundWithAccuracy .binary64 s m e .exact = ofSteps s (nearestSteps m e) (step m e) := by
  have ht : e + shortening m e = step m e := by rw [shortening_eq]; omega
  simp only [roundWithAccuracy, shiftToTargetExponent, shiftToExponent, mantissa_shiftRight,
    mantissa_ofMantissaAndAccuracy, ofSteps, ← ht]
  rfl

/-- Nothing is lost by the second shift. -/
theorem isCanonical_shortened {k : Nat} {t : Int} (hk : k ≠ 0) (hk' : k ≤ 2 ^ 53)
    (ht : -1074 ≤ t) (h : t = -1074 ∨ 2 ^ 52 ≤ k) :
    k / 2 ^ shortening k t ≠ 0 ∧ IsCanonical (k / 2 ^ shortening k t) (t + shortening k t) ∧
      ((k / 2 ^ shortening k t : Nat) : Rat) * 2 ^ (t + shortening k t) = k * 2 ^ t := by
  have hs := step_eq k t
  rcases hk'.lt_or_eq with hlt | rfl
  · have hlog : k.log2 < 53 := (Nat.log2_lt hk).2 hlt
    have e : shortening k t = 0 := by rw [shortening_eq]; omega
    rw [e, pow_zero, Nat.div_one, Nat.cast_zero, add_zero]
    exact ⟨hk, ⟨hlt, ht, h⟩, rfl⟩
  · have hlog : Nat.log2 (2 ^ 53) = 53 := Nat.log2_two_pow
    have e : shortening (2 ^ 53) t = 1 := by rw [shortening_eq]; omega
    rw [e, pow_one]
    refine ⟨by decide, ⟨by decide, by omega, .inr (by decide)⟩, ?_⟩
    rw [Nat.cast_one, zpow_add_one₀ two_ne_zero]
    norm_num
    ring

theorem stands_ofSteps {k : Nat} {t : Int} (s : Sign) (hk : k ≤ 2 ^ 53) (ht : -1074 ≤ t)
    (h : t = -1074 ∨ 2 ^ 52 ≤ k) : Stands (ofSteps s k t) (factor s * (k * 2 ^ t)) := by
  unfold ofSteps
  by_cases hzero : k = 0
  · have hdiv : k / 2 ^ shortening k t = 0 := by rw [hzero, Nat.zero_div]
    rw [dif_pos hdiv, hzero, Nat.cast_zero, zero_mul, mul_zero]
    exact .zero
  · obtain ⟨hne, hc, hvalue⟩ := isCanonical_shortened hzero hk ht h
    rw [dif_neg hne, ← hvalue]
    exact .finite hc

/-- A number of at least fifty-three bits, or with an exponent that is not above the least, is
rounded by cutting off the bits that are too many. -/
theorem roundsTo_roundWithAccuracy {m : Nat} {e : Int} (s : Sign) (hm : m ≠ 0)
    (he : e ≤ step m e) :
    RoundsTo (factor s * (m * 2 ^ e)) (roundWithAccuracy .binary64 s m e .exact) := by
  have hstep := hasStep_step hm e
  have hnear := isNearest_nearestSteps he
  obtain ⟨hk, hk'⟩ := bounds_of_isNearest (by positivity) hstep hnear
  rw [roundWithAccuracy_eq s he]
  exact ⟨_, stands_ofSteps s hk hstep.least hk',
    isRounded_factor ⟨step m e, _, hstep, hnear, rfl⟩ s⟩

/-- A mantissa that is made longer is worth as much as before. -/
theorem shiftLeft_mul (m n : Nat) (e : Int) :
    ((m <<< n : Nat) : Rat) * 2 ^ (e - n) = m * 2 ^ e := by
  rw [Nat.shiftLeft_eq, zpow_sub₀ two_ne_zero, zpow_natCast]
  push_cast
  field_simp

theorem step_shiftLeft {m : Nat} (hm : m ≠ 0) (n : Nat) (e : Int) :
    step (m <<< n) (e - n) = step m e := by
  have hlog : (m <<< n).log2 = m.log2 + n := by
    have hne : m * 2 ^ n ≠ 0 := Nat.mul_ne_zero hm (Nat.two_pow_pos n).ne'
    rw [Nat.shiftLeft_eq, Nat.log2_eq_iff hne]
    constructor
    · rw [Nat.pow_add]
      exact Nat.mul_le_mul_right _ (Nat.log2_self_le hm)
    · rw [Nat.add_right_comm, Nat.pow_add]
      exact Nat.mul_lt_mul_of_pos_right Nat.lt_log2_self (Nat.two_pow_pos n)
  rw [step_eq, step_eq, hlog]
  push_cast
  congr 1
  omega

theorem roundsTo_round {m : Nat} (s : Sign) (hm : m ≠ 0) (e : Int) :
    RoundsTo (factor s * (m * 2 ^ e)) (UnpackedFloat.round .binary64 s m e) := by
  have hstep := step_shiftLeft hm (e - step m e).toNat e
  have hne : m <<< (e - step m e).toNat ≠ 0 := by
    rw [Nat.shiftLeft_eq]
    exact Nat.mul_ne_zero hm (Nat.two_pow_pos _).ne'
  have h := roundsTo_roundWithAccuracy s hne (e := e - (e - step m e).toNat) (by omega)
  rw [shiftLeft_mul] at h
  exact h

theorem roundsTo_normalize (m e : Int) (s : Sign) :
    RoundsTo (m * 2 ^ e) (UnpackedFloat.normalize .binary64 m e s) := by
  unfold UnpackedFloat.normalize
  split
  · rename_i h
    have hm : m < 0 := Int.compare_eq_lt.1 h
    obtain ⟨n, rfl⟩ : ∃ n : Nat, m = -n := ⟨(-m).toNat, by omega⟩
    have hround := roundsTo_round .negative (m := n) (by omega) e
    rw [factor, ← mul_assoc, neg_one_mul] at hround
    rw [neg_neg, Int.toNat_natCast, Int.cast_neg, Int.cast_natCast]
    exact hround
  · rename_i h
    rw [Int.compare_eq_eq.1 h, Int.cast_zero, zero_mul]
    exact Stands.zero.roundsTo
  · rename_i h
    have hm : 0 < m := Int.compare_eq_gt.1 h
    obtain ⟨n, rfl⟩ : ∃ n : Nat, m = n := ⟨m.toNat, by omega⟩
    have hround := roundsTo_round .positive (m := n) (by omega) e
    rw [factor, one_mul] at hround
    rw [Int.toNat_natCast, Int.cast_natCast]
    exact hround

/-! ## Operations -/

section

variable {u w : UnpackedFloat} {q r : Rat}

/-- A number over a smaller exponent. -/
theorem decreased (s : Sign) (m : Nat) {e t : Int} (h : t ≤ e) :
    factor s * (m * 2 ^ e) = (s.apply (decreaseExponent m e t).1 : Int) * 2 ^ t := by
  have ht : e - (e - t).toNat = t := by omega
  have hvalue := shiftLeft_mul m (e - t).toNat e
  rw [ht] at hvalue
  rw [cast_apply, mul_assoc, ← hvalue]
  rfl

theorem roundsTo_add (hu : Stands u q) (hw : Stands w r) :
    RoundsTo (q + r) (UnpackedFloat.add .binary64 u w) := by
  cases hu with
  | zero =>
    rw [zero_add]
    cases hw with
    | zero =>
      simp only [UnpackedFloat.add]
      split <;> exact Stands.zero.roundsTo
    | finite hd => exact (Stands.finite hd).roundsTo
  | @finite s m e _ hc =>
    cases hw with
    | zero =>
      rw [add_zero]
      exact (Stands.finite hc).roundsTo
    | @finite t n f _ hd =>
      rw [decreased s m (min_le_left e f), decreased t n (min_le_right e f), ← add_mul,
        ← Int.cast_add]
      exact roundsTo_normalize _ _ _

theorem roundsTo_sub (hu : Stands u q) (hw : Stands w r) :
    RoundsTo (q - r) (UnpackedFloat.sub .binary64 u w) := by
  cases hu with
  | zero =>
    rw [zero_sub]
    cases hw with
    | zero =>
      rw [neg_zero]
      simp only [UnpackedFloat.sub]
      split <;> exact Stands.zero.roundsTo
    | finite hd =>
      rw [← neg_mul, ← factor_neg]
      exact (Stands.finite hd).roundsTo
  | @finite s m e _ hc =>
    cases hw with
    | zero =>
      rw [sub_zero]
      exact (Stands.finite hc).roundsTo
    | @finite t n f _ hd =>
      rw [decreased s m (min_le_left e f), decreased t n (min_le_right e f), ← sub_mul,
        ← Int.cast_sub]
      exact roundsTo_normalize _ _ _

/-- A product has enough bits, unless both exponents are the least. -/
theorem le_step_mul {m n : Nat} {e f : Int} (hm : 0 < m) (hn : 0 < n) (hc : IsCanonical m e)
    (hd : IsCanonical n f) : e + f ≤ step (m * n) (e + f) := by
  have hs := step_eq (m * n) (e + f)
  have hlog : 2 ^ 52 ≤ m * n → 52 ≤ (m * n).log2 := (Nat.le_log2 (Nat.mul_pos hm hn).ne').2
  rcases hc.le with rfl | hm'
  · rcases hd.le with rfl | hn'
    · omega
    · have := hlog (hn'.trans (Nat.le_mul_of_pos_left n hm))
      omega
  · have := hlog (hm'.trans (Nat.le_mul_of_pos_right m hn))
    omega

theorem roundsTo_mul (hu : Stands u q) (hw : Stands w r) :
    RoundsTo (q * r) (UnpackedFloat.mul .binary64 u w) := by
  cases hu with
  | zero =>
    rw [zero_mul]
    cases hw <;> exact Stands.zero.roundsTo
  | @finite s m e hm hc =>
    cases hw with
    | zero =>
      rw [mul_zero]
      exact Stands.zero.roundsTo
    | @finite t n f hn hd =>
      rw [mul_mul_mul_comm, ← factor_mul, mul_mul_mul_comm, ← zpow_add₀ two_ne_zero,
        ← Nat.cast_mul]
      exact roundsTo_roundWithAccuracy (s * t) (Nat.mul_pos hm hn).ne' (le_step_mul hm hn hc hd)

end

end Double

end Tablature
