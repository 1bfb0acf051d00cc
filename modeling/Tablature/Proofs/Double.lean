import Mathlib
import Tablature.Number.Scalar

/-!
# Doubles taken apart

What is said of doubles follows from the bits that they are packed into.

* `ofFloat_eq`: the parts of a double are those of the number that it is unpacked to;
* `lt_iff`, `le_iff`: doubles are compared as the numbers that they are unpacked to;
* `zero_lt_sub_sub`: what is left of a finite length is positive, or not above zero.
-/

namespace Tablature.Double

open Float.Model Float.Model.UnpackedFloat

/-! ## Packing -/

/-- The exponent field of a finite number is not that of the infinities. -/
theorem ofNat_ne_neg_one {n : Nat} (h : n + 1 < 2 ^ 11) : BitVec.ofNat 11 n ≠ -1#11 := by
  intro hn
  have := congrArg BitVec.toNat hn
  simp only [BitVec.toNat_ofNat] at this
  have e : (-1#11).toNat = 2047 := rfl
  omega

/-- The leading bit of a mantissa is not written. -/
theorem toNat_one_append (fraction : BitVec 52) :
    (1#1 ++ fraction).toNat = 2 ^ 52 + fraction.toNat := by
  rw [BitVec.toNat_append, ← Nat.shiftLeft_add_eq_or_of_lt fraction.isLt, Nat.shiftLeft_eq]
  rfl

/-- The sign of a number, of a zero and of an infinity too. What is no number has none. -/
def sign? : UnpackedFloat → Option Sign
  | .infinity s | .zero s | .finite s _ _ _ => some s
  | .notANumber => none

theorem sign?_eq_none {x : UnpackedFloat} : sign? x = none ↔ x = .notANumber := by
  cases x <;> simp [sign?]

/-- A number is packed with its sign. -/
theorem sign?_unpack_pack (x : UnpackedFloat) : sign? (Float.Model.pack x).unpack = sign? x := by
  change sign? (UnpackedFloat.unpack .binary64 (UnpackedFloat.pack .binary64 x)) = _
  fun_cases UnpackedFloat.pack .binary64 x with
  | case1 => rfl
  | case2 s | case3 s | case4 s => cases s <;> rfl
  | case5 s m e hm mantissaBits biased h₁ h₂ =>
    simp only [UnpackedFloat.unpack, unpackExponent_packComponents, unpackSign_packComponents,
      if_neg (ofNat_ne_neg_one (Nat.lt_of_not_le h₁))]
    split
    · split <;> cases s <;> rfl
    · cases s <;> rfl
  | case6 s m e hm mantissaBits biased h₁ h₂ =>
    simp only [UnpackedFloat.unpack, unpackExponent_packComponents, unpackSign_packComponents]
    rw [if_neg (by decide), if_pos trivial]
    split <;> cases s <;> rfl

/-- Only what is no number is packed as such. -/
theorem unpack_pack_ne_notANumber {x : UnpackedFloat} (h : x ≠ .notANumber) :
    (Float.Model.pack x).unpack ≠ .notANumber := by
  rwa [ne_eq, ← sign?_eq_none, sign?_unpack_pack, sign?_eq_none]

/-! ## Parts -/

def isNegative : Sign → Bool
  | .negative => true
  | .positive => false

/-- The parts of a number that has been unpacked. -/
def toBinary : UnpackedFloat → Binary
  | .zero s => .finite (isNegative s) 0 Binary.leastExponent
  | .finite s m e _ => .finite (isNegative s) m e
  | .infinity s => .infinite (isNegative s)
  | .notANumber => .undefined

theorem toNat_unpackExponent (v : Float) : v.toBits.toNat / Nat.pow 2 52 % Nat.pow 2 11 =
    (@unpackExponent .binary64 v.toModel.toBits.toBitVec).toNat := by
  simp only [unpackExponent, BitVec.toNat_cast, BitVec.extractLsb, BitVec.extractLsb'_toNat]
  rw [Nat.shiftRight_eq_div_pow]
  rfl

theorem toNat_unpackMantissa (v : Float) : v.toBits.toNat % Nat.pow 2 52 =
    (@unpackMantissa .binary64 v.toModel.toBits.toBitVec).toNat := by
  simp only [unpackMantissa, BitVec.toNat_cast, BitVec.extractLsb, BitVec.extractLsb'_toNat]
  rfl

theorem isNegative_unpackSign (v : Float) : decide (Nat.pow 2 63 ≤ v.toBits.toNat) =
    isNegative (Sign.ofBitVec (@unpackSign .binary64 v.toModel.toBits.toBitVec)) := by
  have h : v.toBits.toNat / Nat.pow 2 63 % 2 =
      (@unpackSign .binary64 v.toModel.toBits.toBitVec).toNat := by
    simp only [unpackSign, BitVec.toNat_cast, BitVec.extractLsb, BitVec.extractLsb'_toNat]
    rw [Nat.shiftRight_eq_div_pow]
    rfl
  have hbits : v.toBits.toNat < 2 ^ 64 := v.toBits.toBitVec.isLt
  have hpow : Nat.pow 2 63 = 2 ^ 63 := rfl
  rw [hpow] at h ⊢
  generalize @unpackSign .binary64 v.toModel.toBits.toBitVec = sign at h
  by_cases hsign : sign = 0#1
  · rw [hsign, BitVec.toNat_ofNat] at h
    rw [Sign.ofBitVec, if_pos hsign]
    exact decide_eq_false (by omega)
  · have hne : sign.toNat ≠ 0 := fun e => hsign (BitVec.eq_of_toNat_eq e)
    rw [Sign.ofBitVec, if_neg hsign]
    exact decide_eq_true (by omega)

/-- The parts of a double are those of the number that is unpacked. -/
theorem ofFloat_eq (v : Float) : Binary.ofFloat v = toBinary v.toModel.unpack := by
  change _ = toBinary (UnpackedFloat.unpack .binary64 v.toModel.toBits.toBitVec)
  simp only [Binary.ofFloat, UnpackedFloat.unpack, toNat_unpackExponent, toNat_unpackMantissa,
    isNegative_unpackSign]
  generalize @unpackExponent .binary64 v.toModel.toBits.toBitVec = field
  generalize Sign.ofBitVec (@unpackSign .binary64 v.toModel.toBits.toBitVec) = sign
  have hfraction : (@unpackMantissa .binary64 v.toModel.toBits.toBitVec).toNat = 0 ↔
      @unpackMantissa .binary64 v.toModel.toBits.toBitVec = 0#52 := BitVec.toNat_inj (y := 0#52)
  by_cases hinf : field = -1#11
  · have hinfNat : field.toNat = 2047 := congrArg BitVec.toNat hinf
    rw [if_pos hinf, if_pos hinfNat]
    simp only [hfraction]
    split <;> rfl
  have hinfNat : field.toNat ≠ 2047 := fun e => hinf (BitVec.eq_of_toNat_eq e)
  rw [if_neg hinf, if_neg hinfNat]
  by_cases hzero : field = 0#11
  · have hzeroNat : field.toNat = 0 := congrArg BitVec.toNat hzero
    rw [if_pos hzero, if_pos hzeroNat, hzeroNat]
    split
    · rename_i h
      rw [h]
      rfl
    · rfl
  · have hzeroNat : field.toNat ≠ 0 := fun e => hzero (BitVec.eq_of_toNat_eq e)
    rw [if_neg hzero, if_neg hzeroNat]
    simp only [toBinary, toNat_one_append]
    rfl

/-! ## Comparisons -/

theorem unpack_zero : (0.0 : Float).toModel.unpack = .zero .positive := by rfl

theorem lt_iff {v w : Float} : v < w ↔ v.toModel.unpack.compare w.toModel.unpack = some .lt := by
  change decide (v.toModel < w.toModel) = true ↔ _
  rw [decide_eq_true_iff]
  exact beq_iff_eq

theorem le_iff {v w : Float} :
    v ≤ w ↔ (v.toModel.unpack.compare w.toModel.unpack).any (·.isLE) = true := by
  change decide (v.toModel ≤ w.toModel) = true ↔ _
  rw [decide_eq_true_iff]
  rfl

/-- A number is above zero, or not above it; what is no number is neither. -/
theorem zero_lt_of_not_le {v : Float} (hv : v.toModel.unpack ≠ .notANumber) (h : ¬ v ≤ 0.0) :
    (0.0 : Float) < v := by
  rw [le_iff, unpack_zero] at h
  rw [lt_iff, unpack_zero]
  cases hu : v.toModel.unpack with
  | notANumber => exact absurd hu hv
  | infinity s =>
    rw [hu] at h
    cases s
    · exact absurd rfl h
    · rfl
  | zero s =>
    rw [hu] at h
    exact absurd rfl h
  | finite s m e hm =>
    rw [hu] at h
    cases s
    · exact absurd rfl h
    · rfl

/-! ## Differences -/

theorem normalize_ne_notANumber (m e : Int) (s : Sign) :
    UnpackedFloat.normalize .binary64 m e s ≠ .notANumber := by
  have hround (s : Sign) (m : Nat) : UnpackedFloat.round .binary64 s m e ≠ .notANumber := by
    simp only [UnpackedFloat.round, roundWithAccuracy]
    split <;> nofun
  unfold UnpackedFloat.normalize
  split
  · exact hround _ _
  · nofun
  · exact hround _ _

/-- What a finite number is taken from stays a number. -/
theorem sub_ne_notANumber {x y : UnpackedFloat} (hx : x ≠ .notANumber) (hy : y.isFinite = true) :
    UnpackedFloat.sub .binary64 x y ≠ .notANumber := by
  cases y with
  | notANumber | infinity t => cases hy
  | zero t =>
    cases x with
    | notANumber => exact absurd rfl hx
    | zero s => cases s <;> cases t <;> nofun
    | infinity s | finite s m e hm => nofun
  | finite t n f hn =>
    cases x with
    | notANumber => exact absurd rfl hx
    | infinity s | zero s => nofun
    | finite s m e hm => exact normalize_ne_notANumber _ _ _

theorem ne_notANumber_of_isFinite {x : UnpackedFloat} (hx : x.isFinite = true) :
    x ≠ .notANumber := by
  rintro rfl
  cases hx

/-- A length from which two finite lengths are taken, and of which something is left. -/
theorem zero_lt_sub_sub {a b c : Float} (ha : a.isFinite = true) (hb : b.isFinite = true)
    (hc : c.isFinite = true) (h : ¬ a - b - c ≤ 0.0) : (0.0 : Float) < a - b - c := by
  have hab : (a - b).toModel.unpack ≠ .notANumber :=
    unpack_pack_ne_notANumber (sub_ne_notANumber (ne_notANumber_of_isFinite ha) hb)
  exact zero_lt_of_not_le (unpack_pack_ne_notANumber (sub_ne_notANumber hab hc)) h

end Tablature.Double
