import Tablature.Proofs.Rounding

/-!
# What doubles are worth

A finite double stands for a rational number. Comparisons of doubles are those of the
numbers they stand for, and an operation on doubles gives the one that the exact result
is rounded to, or an infinity if that is too large.

* `IsWorth`, `isWorth_iff`: what a double stands for, read from its bits;
* `IsWorth.lt_iff`, `IsWorth.le_iff`: comparisons;
* `rounds_add`, `rounds_sub`, `rounds_mul`: the operations;
* `isWorth_ofNat`, `isWorth_epsilon`: counts, and the distance between one and the next double.
-/

namespace Tablature.Double

open Float.Model Float.Model.UnpackedFloat

/-! ## Bits -/

/-- A mantissa of fifty-three bits is written without its leading bit. -/
theorem unpack_normal {s : Sign} {m field : Nat} (hm : 0 < m) (hnormal : 2 ^ 52 ≤ m)
    (hlt : m < 2 ^ 53) (hfield : 0 < field) (hfit : field + 1 < 2 ^ 11) :
    UnpackedFloat.unpack .binary64
        (packComponents .binary64 s (BitVec.ofNat 11 field) (BitVec.ofNat 52 m)) =
      .finite s m (field - 1075) hm := by
  have hbias : ((Format.binary64.exponentBias : Nat) : Int) = 1023 := rfl
  have hfieldNat : (BitVec.ofNat 11 field).toNat = field := by
    rw [BitVec.toNat_ofNat, Nat.mod_eq_of_lt (by omega)]
  have hzero : BitVec.ofNat 11 field ≠ 0#11 := by
    intro h
    have := congrArg BitVec.toNat h
    rw [hfieldNat] at this
    exact hfield.ne' this
  have hmantissaNat : (1#1 ++ BitVec.ofNat 52 m).toNat = m := by
    rw [toNat_one_append, BitVec.toNat_ofNat]
    omega
  simp only [UnpackedFloat.unpack, unpackExponent_packComponents, unpackMantissa_packComponents,
    unpackSign_packComponents, Sign.ofBitVec_toBitVec, if_neg (ofNat_ne_neg_one hfit),
    if_neg hzero, hfieldNat, hmantissaNat, hbias]
  rfl

/-- A shorter mantissa is written as it is, and its exponent is the least. -/
theorem unpack_subnormal {s : Sign} {m : Nat} (hm : 0 < m) (hlt : m < 2 ^ 52) :
    UnpackedFloat.unpack .binary64 (packComponents .binary64 s 0#11 (BitVec.ofNat 52 m)) =
      .finite s m (-1074) hm := by
  have hmantissaNat : (BitVec.ofNat 52 m).toNat = m := by
    rw [BitVec.toNat_ofNat, Nat.mod_eq_of_lt hlt]
  have hzero : BitVec.ofNat 52 m ≠ 0#52 := by
    intro h
    have := congrArg BitVec.toNat h
    rw [hmantissaNat] at this
    exact hm.ne' this
  simp only [UnpackedFloat.unpack, unpackExponent_packComponents, unpackMantissa_packComponents,
    unpackSign_packComponents, Sign.ofBitVec_toBitVec, hmantissaNat]
  rw [if_neg (by decide), if_pos trivial, dif_neg hzero]
  rfl

/-- A canonical number fits into sixty-four bits, or it is too large and becomes infinite. -/
theorem unpack_pack_finite {s : Sign} {m : Nat} {e : Int} (hm : 0 < m) (hc : IsCanonical m e) :
    (Float.Model.pack (.finite s m e hm)).unpack =
      if e ≤ 971 then .finite s m e hm else .infinity s := by
  change UnpackedFloat.unpack .binary64 (UnpackedFloat.pack .binary64 _) = _
  have hbias : ((Format.binary64.exponentBias : Nat) : Int) = 1023 := rfl
  have hmantissa : Format.binary64.mantissaBits = 53 := rfl
  have hleast := hc.least
  simp only [UnpackedFloat.pack, hbias]
  generalize hfield : (e + 1023 + ((52 : Nat) : Int)).toNat = field
  split
  · have he : ¬ e ≤ 971 := by omega
    rw [if_neg he]
    cases s <;> rfl
  · rename_i hfit
    have hfit := Nat.lt_of_not_le hfit
    have he : e ≤ 971 := by omega
    rw [if_pos he]
    split
    · rename_i hbits
      obtain rfl : e = field - 1075 := by omega
      exact unpack_normal hm ((Nat.le_log2 hm.ne').1 (by omega)) hc.lt (by omega) hfit
    · rename_i hbits
      have hlog := (Nat.log2_lt hm.ne').2 hc.lt
      have hlt : m < 2 ^ 52 := (Nat.log2_lt hm.ne').1 (by omega)
      obtain rfl : e = -1074 := hc.le.resolve_right (by omega)
      exact unpack_subnormal hm hlt

/-- What is read from sixty-four bits is canonical, and its exponent is not too large. -/
theorem isCanonical_of_unpack {v : Float.Model} {s : Sign} {m : Nat} {e : Int} {hm : 0 < m}
    (h : v.unpack = .finite s m e hm) : IsCanonical m e ∧ e ≤ 971 := by
  have hbias : ((Format.binary64.exponentBias : Nat) : Int) = 1023 := rfl
  change UnpackedFloat.unpack .binary64 v.toBits.toBitVec = _ at h
  simp only [UnpackedFloat.unpack, hbias] at h
  generalize @unpackExponent .binary64 v.toBits.toBitVec = field at h
  change BitVec 11 at field
  have hfield := field.isLt
  have hfraction : (@unpackMantissa .binary64 v.toBits.toBitVec).toNat < 2 ^ 52 :=
    (@unpackMantissa .binary64 v.toBits.toBitVec).isLt
  split at h
  · split at h <;> cases h
  rename_i hinf
  have hinf : field.toNat ≠ 2047 := fun e => hinf (BitVec.eq_of_toNat_eq e)
  split at h
  · rename_i hzero
    have hzero : field.toNat = 0 := by rw [hzero]; rfl
    split at h
    · cases h
    · cases h
      exact ⟨⟨by omega, by omega, .inl (by omega)⟩, by omega⟩
  · rename_i hzero
    have hzero : field.toNat ≠ 0 := fun e => hzero (BitVec.eq_of_toNat_eq e)
    cases h
    have hm := toNat_one_append (@unpackMantissa .binary64 v.toBits.toBitVec)
    exact ⟨⟨by omega, by omega, .inr (by omega)⟩, by omega⟩

/-! ## Doubles -/

/-- The double is finite, and stands for the rational. -/
def IsWorth (v : Float) (r : Rat) : Prop := v.isFinite = true ∧ (Binary.ofFloat v).value = r

theorem value_toBinary_finite (s : Sign) (m : Nat) (e : Int) :
    (Binary.finite (isNegative s) m e).value = factor s * (m * 2 ^ e) := by
  cases s
  · exact (neg_one_mul _).symm
  · exact (one_mul _).symm

theorem isWorth_iff {v : Float} {r : Rat} : IsWorth v r ↔ Stands v.toModel.unpack r := by
  rw [IsWorth, ofFloat_eq]
  change v.toModel.unpack.isFinite = true ∧ _ ↔ _
  constructor
  · rintro ⟨hfinite, rfl⟩
    cases h : v.toModel.unpack with
    | notANumber | infinity =>
      rw [h] at hfinite
      cases hfinite
    | zero s =>
      rw [toBinary, value_toBinary_finite, Nat.cast_zero, zero_mul, mul_zero]
      exact .zero
    | finite s m e hm =>
      rw [toBinary, value_toBinary_finite]
      exact .finite (isCanonical_of_unpack h).1
  · generalize v.toModel.unpack = u
    intro h
    cases h with
    | @zero s =>
      rw [toBinary, value_toBinary_finite, Nat.cast_zero, zero_mul, mul_zero]
      exact ⟨rfl, rfl⟩
    | finite => exact ⟨rfl, value_toBinary_finite _ _ _⟩

theorem Stands.isRepresentable {u : UnpackedFloat} {r : Rat} (h : Stands u r) :
    IsRepresentable r := by
  cases h with
  | zero => exact isRepresentable_zero
  | @finite s m e _ hc =>
    refine ⟨s.apply m, e, ?_, hc.least, by rw [cast_apply, mul_assoc, Int.cast_natCast]⟩
    have hlt := hc.lt
    cases s <;> simp only [Sign.apply] <;> rw [abs_le] <;> omega

/-! ## Comparisons -/

/-- Of two canonical numbers, the one with the larger exponent is the larger. -/
theorem IsCanonical.lt_of_exponent {m n : Nat} {e f : Int} (hc : IsCanonical m e)
    (hd : IsCanonical n f) (h : e < f) : (m : Rat) * 2 ^ e < n * 2 ^ f := by
  have hn : (2 : Rat) ^ (f + 52) ≤ |(n : Rat) * 2 ^ f| :=
    hd.hasStep.le.resolve_left (by have := hc.least; omega)
  rw [abs_of_nonneg (by positivity)] at hn
  calc (m : Rat) * 2 ^ e ≤ |(m : Rat) * 2 ^ e| := le_abs_self _
    _ < 2 ^ (e + 53) := hc.hasStep.lt
    _ ≤ 2 ^ (f + 52) := zpow_le_zpow_right₀ one_le_two (by omega)
    _ ≤ n * 2 ^ f := hn

/-- Positive numbers are compared by their exponents first. -/
theorem compare_then {m n : Nat} {e f : Int} (hc : IsCanonical m e) (hd : IsCanonical n f) :
    (compare e f).then (compare m n) = compare ((m : Rat) * 2 ^ e) (n * 2 ^ f) := by
  rcases lt_trichotomy e f with h | rfl | h
  · rw [compare_lt_iff_lt.2 h, compare_lt_iff_lt.2 (hc.lt_of_exponent hd h)]
    rfl
  · have hpos : (0 : Rat) < 2 ^ e := zpow_pos two_pos e
    rw [compare_eq_iff_eq.2 rfl]
    change compare m n = _
    rcases lt_trichotomy m n with h | rfl | h
    · rw [compare_lt_iff_lt.2 h, compare_lt_iff_lt.2]
      exact mul_lt_mul_of_pos_right (by exact_mod_cast h) hpos
    · rw [compare_eq_iff_eq.2 rfl, compare_eq_iff_eq.2 rfl]
    · rw [compare_gt_iff_gt.2 h, compare_gt_iff_gt.2]
      exact mul_lt_mul_of_pos_right (by exact_mod_cast h) hpos
  · rw [compare_gt_iff_gt.2 h, compare_gt_iff_gt.2 (hd.lt_of_exponent hc h)]
    rfl

theorem compare_swap_neg (q r : Rat) : (compare q r).swap = compare (-q) (-r) := by
  rcases lt_trichotomy q r with h | rfl | h
  · rw [compare_lt_iff_lt.2 h, compare_gt_iff_gt.2 (neg_lt_neg h)]
    rfl
  · rw [compare_eq_iff_eq.2 rfl, compare_eq_iff_eq.2 rfl]
    rfl
  · rw [compare_gt_iff_gt.2 h, compare_lt_iff_lt.2 (neg_lt_neg h)]
    rfl

/-- Numbers are compared as what they stand for. -/
theorem Stands.compare_eq {u w : UnpackedFloat} {q r : Rat} (hu : Stands u q) (hw : Stands w r) :
    u.compare w = some (compare q r) := by
  have hpos {m : Nat} (h : 0 < m) (e : Int) : (0 : Rat) < m * 2 ^ e := by positivity
  have hneg (q : Rat) : factor .negative * q = -q := neg_one_mul q
  have hsame (q : Rat) : factor .positive * q = q := one_mul q
  cases hu <;> cases hw
  case zero.zero => rfl
  case zero.finite t n f hn hd =>
    cases t
    · rw [hneg, compare_gt_iff_gt.2 (neg_lt_zero.2 (hpos hn f))]
      rfl
    · rw [hsame, compare_lt_iff_lt.2 (hpos hn f)]
      rfl
  case finite.zero s m e hm hc t =>
    cases s
    · rw [hneg, compare_lt_iff_lt.2 (neg_lt_zero.2 (hpos hm e))]
      rfl
    · rw [hsame, compare_gt_iff_gt.2 (hpos hm e)]
      rfl
  case finite.finite s m e hm hc t n f hn hd =>
    cases s <;> cases t
    · rw [hneg, hneg, ← compare_swap_neg, ← compare_then hc hd]
      rfl
    · rw [hneg, hsame, compare_lt_iff_lt.2 ((neg_lt_zero.2 (hpos hm e)).trans (hpos hn f))]
      rfl
    · rw [hneg, hsame, compare_gt_iff_gt.2 ((neg_lt_zero.2 (hpos hn f)).trans (hpos hm e))]
      rfl
    · rw [hsame, hsame, ← compare_then hc hd]
      rfl

namespace IsWorth

variable {v w : Float} {q r : Rat}

theorem unique (h : IsWorth v q) (h' : IsWorth v r) : q = r := h.2.symm.trans h'.2

theorem isRepresentable (h : IsWorth v r) : IsRepresentable r := (isWorth_iff.1 h).isRepresentable

theorem abs_lt (h : IsWorth v r) : |r| < 2 ^ (1024 : Int) := by
  have hstands := isWorth_iff.1 h
  generalize hu : v.toModel.unpack = u at hstands
  cases hstands with
  | zero =>
    rw [abs_zero]
    positivity
  | @finite s m e hm hc =>
    have habs : |factor s * (m * 2 ^ e)| = |(m : Rat) * 2 ^ e| := by
      cases s <;> simp [factor]
    rw [habs]
    have he := (isCanonical_of_unpack hu).2
    exact hc.hasStep.lt.trans_le (zpow_le_zpow_right₀ one_le_two (by omega))

theorem compare_eq (hv : IsWorth v q) (hw : IsWorth w r) :
    v.toModel.unpack.compare w.toModel.unpack = some (compare q r) :=
  (isWorth_iff.1 hv).compare_eq (isWorth_iff.1 hw)

theorem lt_iff (hv : IsWorth v q) (hw : IsWorth w r) : v < w ↔ q < r := by
  rw [Double.lt_iff, hv.compare_eq hw, Option.some.injEq, compare_lt_iff_lt]

theorem le_iff (hv : IsWorth v q) (hw : IsWorth w r) : v ≤ w ↔ q ≤ r := by
  rw [Double.le_iff, hv.compare_eq hw, Option.any_some, ← compare_le_iff_le,
    Ordering.isLE_iff_ne_gt]

end IsWorth

/-! ## Sums, differences and products -/

/-- The double is the one that the rational is rounded to, or an infinity if that is too large. -/
inductive Rounds (x : Rat) (v : Float) : Prop where
  | finite {r : Rat} : IsRounded x r → IsWorth v r → Rounds x v
  | overflow {s : Sign} {r : Rat} : IsRounded x r → 2 ^ (1024 : Int) ≤ factor s * r →
    v.toModel.unpack = .infinity s → Rounds x v

theorem rounds_pack {x : Rat} {u : UnpackedFloat} (h : RoundsTo x u) :
    Rounds x (.ofModel (Float.Model.pack u)) := by
  obtain ⟨r, hu, hx⟩ := h
  cases hu with
  | @zero s =>
    refine .finite hx (isWorth_iff.2 ?_)
    cases s <;> exact .zero
  | @finite s m e hm hc =>
    have hpack := unpack_pack_finite (s := s) hm hc
    split at hpack
    · refine .finite hx (isWorth_iff.2 ?_)
      change Stands (Float.Model.pack (.finite s m e hm)).unpack _
      rw [hpack]
      exact .finite hc
    · refine .overflow hx ?_ hpack
      have hsign : factor s * factor s = 1 := by cases s <;> norm_num [factor]
      have hm' : (2 : Rat) ^ (52 : Int) ≤ m := by
        exact_mod_cast hc.le.resolve_left (by omega)
      rw [← mul_assoc, hsign, one_mul]
      calc (2 : Rat) ^ (1024 : Int) = 2 ^ (52 : Int) * 2 ^ (972 : Int) := by
            rw [← zpow_add₀ two_ne_zero]
            rfl
        _ ≤ m * 2 ^ e := by
            gcongr
            · exact one_le_two
            · omega

section

variable {v w : Float} {q r x : Rat}

theorem rounds_add (hv : IsWorth v q) (hw : IsWorth w r) : Rounds (q + r) (v + w) :=
  rounds_pack (roundsTo_add (isWorth_iff.1 hv) (isWorth_iff.1 hw))

theorem rounds_sub (hv : IsWorth v q) (hw : IsWorth w r) : Rounds (q - r) (v - w) :=
  rounds_pack (roundsTo_sub (isWorth_iff.1 hv) (isWorth_iff.1 hw))

theorem rounds_mul (hv : IsWorth v q) (hw : IsWorth w r) : Rounds (q * r) (v * w) :=
  rounds_pack (roundsTo_mul (isWorth_iff.1 hv) (isWorth_iff.1 hw))

/-- Nothing is larger than infinity. -/
theorem not_lt_of_infinity (h : v.toModel.unpack = .infinity .positive) : ¬ v < w := by
  rw [Double.lt_iff, h]
  cases w.toModel.unpack with
  | infinity s => cases s <;> nofun
  | _ => nofun

namespace Rounds

/-- If the double is finite, it is the one that the rational is rounded to. -/
theorem isRounded (h : Rounds x v) (hv : IsWorth v r) : IsRounded x r := by
  cases h with
  | finite hx hw => exact hv.unique hw ▸ hx
  | overflow _ _ hinf =>
    have hstands := isWorth_iff.1 hv
    rw [hinf] at hstands
    cases hstands

/-- What lies between two representable rationals that are not too large is not too large. -/
theorem isWorth_between (h : Rounds x v) (hq : IsRepresentable q) (hr : IsRepresentable r)
    (hq' : |q| < 2 ^ (1024 : Int)) (hr' : |r| < 2 ^ (1024 : Int)) (hqx : q ≤ x) (hxr : x ≤ r) :
    ∃ z, IsWorth v z ∧ IsRounded x z ∧ q ≤ z ∧ z ≤ r := by
  cases h with
  | @finite z hz hv => exact ⟨z, hv, hz, hz.ge hq hqx, hz.le hr hxr⟩
  | @overflow s z hz hle =>
    refine absurd hle (not_le.2 ?_)
    cases s with
    | negative =>
      calc factor .negative * z = -z := neg_one_mul z
        _ ≤ -q := neg_le_neg (hz.ge hq hqx)
        _ ≤ |q| := neg_le_abs q
        _ < _ := hq'
    | positive =>
      calc factor .positive * z = z := one_mul z
        _ ≤ r := hz.le hr hxr
        _ ≤ |r| := le_abs_self r
        _ < _ := hr'

/-- What is representable, and not too large, is kept. -/
theorem isWorth (h : Rounds x v) (hx : IsRepresentable x) (hlt : |x| < 2 ^ (1024 : Int)) :
    IsWorth v x := by
  obtain ⟨z, hv, hz, -⟩ := h.isWorth_between hx hx hlt hlt le_rfl le_rfl
  exact hz.eq hx ▸ hv

/-- A rational that is not negative is rounded to a finite double, or is too large for one. -/
theorem isWorth_or (h : Rounds x v) (hx : 0 ≤ x) : ∃ r, IsRounded x r ∧
    (IsWorth v r ∨ 2 ^ (1024 : Int) ≤ r ∧ v.toModel.unpack = .infinity .positive) := by
  cases h with
  | finite hr hv => exact ⟨_, hr, .inl hv⟩
  | @overflow s r hr hle hinf =>
    have hr₀ : 0 ≤ r := hr.ge isRepresentable_zero hx
    cases s with
    | positive => exact ⟨r, hr, .inr ⟨hle.trans_eq (one_mul r), hinf⟩⟩
    | negative =>
      have hpow : (0 : Rat) < 2 ^ (1024 : Int) := zpow_pos two_pos _
      have hneg : 0 < -r := hpow.trans_le (hle.trans_eq (neg_one_mul r))
      exact absurd hneg (not_lt.2 (neg_nonpos.2 hr₀))

end Rounds

end

/-! ## Constants -/

theorem isRepresentable_natCast {n : Nat} (h : n ≤ 2 ^ 53) : IsRepresentable n :=
  ⟨n, 0, by rw [Nat.abs_cast]; exact_mod_cast h, by decide, by simp⟩

theorem natCast_lt {n : Nat} (h : n ≤ 2 ^ 53) : |(n : Rat)| < 2 ^ (1024 : Int) := by
  rw [Nat.abs_cast]
  calc (n : Rat) ≤ 2 ^ (53 : Int) := by exact_mod_cast h
    _ < 2 ^ (1024 : Int) := zpow_lt_zpow_right₀ one_lt_two (by decide)

/-- A constant is worth what its bits say. -/
theorem isWorth_of_unpack {v : Float} {m : Nat} {e : Int} {hm : 0 < m}
    (h : v.toModel.unpack = .finite .positive m e hm) : IsWorth v (m * 2 ^ e) := by
  have hstands : Stands (.finite .positive m e hm) (factor .positive * (m * 2 ^ e)) :=
    .finite (isCanonical_of_unpack h).1
  rw [factor, one_mul, ← h] at hstands
  exact isWorth_iff.2 hstands

theorem isWorth_epsilon : IsWorth Scalar.epsilon (2 ^ (-52 : Int)) := by
  have h : (Scalar.epsilon : Float).toModel.unpack =
      .finite .positive (2 ^ 52) (-104) (by decide) := by rfl
  convert isWorth_of_unpack h using 1
  norm_num

theorem isWorth_one :
    IsWorth (getElem Float.exactlyRepresentablePowersOfTen 0 (by decide)) 1 := by
  have h : (getElem Float.exactlyRepresentablePowersOfTen 0 (by decide)).toModel.unpack =
      .finite .positive (2 ^ 52) (-52) (by decide) := by rfl
  convert isWorth_of_unpack h using 1
  norm_num

/-- A count is rounded like any other number. -/
theorem rounds_ofNat (n : Nat) : Rounds n (Float.ofNat n) := by
  change Rounds n (Float.ofScientific n false 0)
  unfold Float.ofScientific
  split
  · -- A small count is a double times the zeroth power of ten.
    rename_i h
    have hn : Rounds n n.toUInt64.toFloat := by
      have hround := rounds_pack (roundsTo_normalize n.toUInt64.toNat 0 .positive)
      have hcast : n.toUInt64.toNat = n := Nat.mod_eq_of_lt (by omega)
      change Rounds _ n.toUInt64.toFloat at hround
      rw [zpow_zero, mul_one, Int.cast_natCast, hcast] at hround
      exact hround
    have hmul := rounds_mul (hn.isWorth (isRepresentable_natCast h.1.le) (natCast_lt h.1.le))
      isWorth_one
    rw [mul_one] at hmul
    exact hmul
  · rename_i hlarge
    have hn : n ≠ 0 := by
      rintro rfl
      exact hlarge ⟨by decide, by decide⟩
    have hsmall : ¬ (0 : Int) < -((2 : Int) ^ Format.binary64.exponentBits + n.log2) := by
      have : (0 : Int) ≤ 2 ^ Format.binary64.exponentBits := by decide
      omega
    change Rounds n (.ofModel (Float.Model.pack (UnpackedFloat.ofScientific .binary64 n 0)))
    rw [UnpackedFloat.ofScientific, dif_neg hn, if_neg (by decide), if_neg hsmall,
      if_pos (Int.le_refl 0)]
    refine rounds_pack ?_
    have hne : n <<< 53 ≠ 0 := by
      rw [Nat.shiftLeft_eq]
      exact Nat.mul_ne_zero hn (Nat.two_pow_pos _).ne'
    have hstep : (0 : Int) - (53 : Nat) ≤ step (n <<< 53) (0 - (53 : Nat)) := by
      rw [step_shiftLeft hn, step_eq]
      omega
    have hround := roundsTo_roundWithAccuracy .positive hne hstep
    rw [shiftLeft_mul, zpow_zero, mul_one, factor, one_mul] at hround
    have hmantissa : n <<< Format.binary64.mantissaBits * 10 ^ Int.toNat 0 = n <<< 53 :=
      Nat.mul_one _
    have hexponent : -(Format.binary64.mantissaBits : Int) + 0 = 0 - (53 : Nat) := by decide
    rw [UnpackedFloat.mul, hmantissa, hexponent]
    exact hround

/-- A count of at most fifty-three bits is a double. -/
theorem isWorth_ofNat {n : Nat} (h : n ≤ 2 ^ 53) : IsWorth (Float.ofNat n) n :=
  (rounds_ofNat n).isWorth (isRepresentable_natCast h) (natCast_lt h)

/-- A count that is not zero is a positive number, however it is rounded. -/
theorem zero_lt_ofNat {n : Nat} (hn : 0 < n) : (0.0 : Float) < Float.ofNat n := by
  have hone : IsRepresentable 1 := by exact_mod_cast isRepresentable_natCast (n := 1) (by decide)
  have hn' : (1 : Rat) ≤ n := by exact_mod_cast hn
  obtain ⟨r, hr, hworth | ⟨-, hinf⟩⟩ := (rounds_ofNat n).isWorth_or (by positivity)
  · have hzero : IsWorth 0.0 0 := isWorth_iff.2 (unpack_zero ▸ .zero)
    exact (hzero.lt_iff hworth).2 (zero_lt_one.trans_le (hr.ge hone hn'))
  · rw [Double.lt_iff, unpack_zero, hinf]
    rfl

end Tablature.Double
