import Tablature.Proofs.Mirror
import Tablature.Proofs.Worth

/-!
# Barberpoles over the same lines

A barberpole covers the lines between those of its two courses. The order in which the courses
are given, the end that they are counted from, and whether they are given at all is lost when it
is drawn. In rounded arithmetic this is no matter of course: the lesser of two numbers depends on
their order if they are zeros with different signs. But the lines of a stave are all on the same
side of zero, whatever the spacing of the courses is.

* `Double.IsSigned`: numbers without the other sign; products of them, and counts;
* `Double.IsSigned.lesser_comm`, `Double.IsSigned.greater_comm`: which of two such numbers is the
  lesser, in either order;
* `Grid.covered`: the lines that a range of courses covers;
* `Grid.barberpoleOver`, `Barberpole.setOn_eq`: the place of a barberpole, from these lines alone;
* `Grid.drawBarberpole_of_covered`: what is drawn, and ranges that cover the same lines.
-/

namespace Tablature

namespace Double

open Float.Model Float.Model.UnpackedFloat

/-! ## Signs -/

/-- If the double is a number, or a zero or an infinity, this is its sign. -/
def IsSigned (s : Sign) (v : Float) : Prop :=
  sign? v.toModel.unpack = none ∨ sign? v.toModel.unpack = some s

theorem exists_isSigned (v : Float) : ∃ s, IsSigned s v := by
  unfold IsSigned
  cases sign? v.toModel.unpack with
  | none => exact ⟨.positive, .inl rfl⟩
  | some s => exact ⟨s, .inr rfl⟩

theorem sign?_roundWithAccuracy (s : Sign) (m : Nat) (e : Int) (a : Accuracy) :
    sign? (roundWithAccuracy .binary64 s m e a) = some s := by
  simp only [roundWithAccuracy]
  split <;> rfl

/-- A product has the product of the signs, if it is a number at all. -/
theorem sign?_mul (u x : UnpackedFloat) : sign? (UnpackedFloat.mul .binary64 u x) = none ∨
    ∃ s t, sign? u = some s ∧ sign? x = some t ∧
      sign? (UnpackedFloat.mul .binary64 u x) = some (s * t) := by
  cases u with
  | notANumber => exact .inl rfl
  | infinity s =>
    cases x with
    | notANumber | zero => exact .inl rfl
    | infinity t | finite t => exact .inr ⟨s, t, rfl, rfl, rfl⟩
  | zero s =>
    cases x with
    | notANumber | infinity => exact .inl rfl
    | zero t | finite t => exact .inr ⟨s, t, rfl, rfl, rfl⟩
  | finite s =>
    cases x with
    | notANumber => exact .inl rfl
    | infinity t | zero t => exact .inr ⟨s, t, rfl, rfl, rfl⟩
    | finite t => exact .inr ⟨s, t, rfl, rfl, sign?_roundWithAccuracy _ _ _ _⟩

theorem IsSigned.mul {s t : Sign} {v w : Float} (hv : IsSigned s v) (hw : IsSigned t w) :
    IsSigned (s * t) (v * w) := by
  have hpack : sign? (v * w).toModel.unpack =
      sign? (UnpackedFloat.mul .binary64 v.toModel.unpack w.toModel.unpack) := sign?_unpack_pack _
  unfold IsSigned at *
  rw [hpack]
  rcases sign?_mul v.toModel.unpack w.toModel.unpack with h | ⟨s', t', hs, ht, h⟩
  · exact .inl h
  · rw [hs] at hv
    rw [ht] at hw
    obtain rfl : s' = s := Option.some.inj (hv.resolve_left nofun)
    obtain rfl : t' = t := Option.some.inj (hw.resolve_left nofun)
    exact .inr h

theorem isSigned_of_zero_lt {v : Float} (h : (0.0 : Float) < v) : IsSigned .positive v := by
  rw [lt_iff, unpack_zero] at h
  unfold IsSigned
  cases hu : v.toModel.unpack with
  | notANumber => exact .inl rfl
  | zero s => rw [hu] at h; cases h
  | infinity s | finite s =>
    rw [hu] at h
    cases s
    · cases h
    · exact .inr rfl

theorem isSigned_ofNat (n : Nat) : IsSigned .positive (Float.ofNat n) := by
  rcases n.eq_zero_or_pos with rfl | hn
  · exact .inr rfl
  · exact isSigned_of_zero_lt (zero_lt_ofNat hn)

/-! ## Comparisons both ways -/

theorem unpack_injective : Function.Injective fun v : Float => v.toModel.unpack := by
  have hpack (v : Float) :
      UnpackedFloat.pack .binary64 v.toModel.unpack = v.toModel.toBits.toBitVec := by
    change UnpackedFloat.pack .binary64 (UnpackedFloat.unpack .binary64 _) = _
    rw [pack_unpack]
    split
    · rename_i h
      obtain ⟨hexponent, hmantissa⟩ := of_decide_eq_true h
      exact (v.toModel.valid.eq_packedNaN hexponent hmantissa).symm
    · rfl
  rintro ⟨⟨⟨a⟩, ha⟩⟩ ⟨⟨⟨b⟩, hb⟩⟩ h
  obtain rfl : a = b := (hpack _).symm.trans ((congrArg _ h).trans (hpack _))
  rfl

theorem compare_swap (u w : UnpackedFloat) : w.compare u = (u.compare w).map .swap := by
  cases u with
  | notANumber => cases w <;> rfl
  | infinity s =>
    cases w with
    | infinity t => cases s <;> cases t <;> rfl
    | _ => cases s <;> rfl
  | zero s =>
    cases w with
    | infinity t | finite t => cases t <;> rfl
    | _ => rfl
  | finite s m e =>
    cases w with
    | notANumber => cases s <;> rfl
    | infinity t => cases s <;> cases t <;> rfl
    | zero t => cases s <;> rfl
    | finite t n f =>
      have hlex : (compare f e).then (compare n m) = ((compare e f).then (compare m n)).swap := by
        rw [Ordering.swap_then, Std.OrientedOrd.eq_swap (a := f), Std.OrientedOrd.eq_swap (a := n)]
      cases s <;> cases t <;> first | rfl | simp [UnpackedFloat.compare, hlex]

theorem compare_eq_none {u w : UnpackedFloat} :
    u.compare w = none ↔ u = .notANumber ∨ w = .notANumber := by
  cases u with
  | notANumber => cases w <;> simp [UnpackedFloat.compare]
  | infinity s | zero s | finite s =>
    cases w with
    | notANumber => cases s <;> simp [UnpackedFloat.compare]
    | infinity t | zero t | finite t => cases s <;> cases t <;> simp [UnpackedFloat.compare]

/-- Numbers that compare as equal are the same, unless they are zeros with different signs. -/
theorem eq_of_compare {u w : UnpackedFloat} (hsign : sign? u = sign? w)
    (h : u.compare w = some .eq) : u = w := by
  cases u with
  | notANumber => cases w <;> cases h
  | infinity s =>
    cases w with
    | infinity t => exact congrArg _ (Option.some.inj hsign)
    | notANumber | zero | finite => cases s <;> cases h
  | zero s =>
    cases w with
    | zero t => exact congrArg _ (Option.some.inj hsign)
    | notANumber => cases h
    | infinity t | finite t => cases t <;> cases h
  | finite s m e =>
    cases w with
    | finite t n f =>
      obtain rfl : s = t := Option.some.inj hsign
      obtain ⟨rfl, rfl⟩ : e = f ∧ m = n := by
        cases s <;> simpa [UnpackedFloat.compare, Ordering.then_eq_eq] using h
      rfl
    | notANumber | zero => cases s <;> cases h
    | infinity t => cases s <;> cases t <;> cases h

theorem le_self_iff {v : Float} : v ≤ v ↔ v.toModel.unpack ≠ .notANumber := by
  have hswap := compare_swap v.toModel.unpack v.toModel.unpack
  have hnone := compare_eq_none (u := v.toModel.unpack) (w := v.toModel.unpack)
  rw [or_self_iff] at hnone
  rw [le_iff, ne_eq, ← hnone]
  generalize v.toModel.unpack.compare v.toModel.unpack = o at hswap ⊢
  rcases o with _ | _ | _ | _
  · simp
  · cases hswap
  · simp
  · cases hswap

/-- Two doubles without different signs are the same or are compared one way only, unless just one
of them is no number. -/
theorem IsSigned.compared {s : Sign} {v w : Float} (hv : IsSigned s v) (hw : IsSigned s w) :
    v = w ∨ (v ≤ w ∧ ¬ w ≤ v ∧ v ≤ v ∧ w ≤ w) ∨ (w ≤ v ∧ ¬ v ≤ w ∧ v ≤ v ∧ w ≤ w) ∨
      ¬ v ≤ w ∧ ¬ w ≤ v ∧ (v ≤ v ↔ ¬ w ≤ w) := by
  simp only [le_self_iff, le_iff, compare_swap v.toModel.unpack w.toModel.unpack]
  by_cases hnv : v.toModel.unpack = .notANumber
  · by_cases hnw : w.toModel.unpack = .notANumber
    · exact .inl (unpack_injective (hnv.trans hnw.symm))
    · rw [compare_eq_none.2 (.inl hnv)]
      simp [hnv, hnw]
  · by_cases hnw : w.toModel.unpack = .notANumber
    · rw [compare_eq_none.2 (.inr hnw)]
      simp [hnv, hnw]
    · have hne := compare_eq_none.not.2 (not_or.2 ⟨hnv, hnw⟩)
      have hsign := (hv.resolve_left (sign?_eq_none.not.2 hnv)).trans
        (hw.resolve_left (sign?_eq_none.not.2 hnw)).symm
      obtain ⟨_ | _ | _, hc⟩ := Option.ne_none_iff_exists'.1 hne
      · simp [hc, hnv, hnw]
      · exact .inl (unpack_injective (eq_of_compare hsign hc))
      · simp [hc, hnv, hnw]

/-- One of two doubles is chosen by a test, or else for being a number. With the doubles in the
other order the test is another, but the choice is the same if the tests never hold both, and if
neither holds only where just one of the doubles is a number. -/
theorem choice_comm {v w : Float} {p q : Prop} [Decidable p] [Decidable q]
    (h : v = w ∨ (p ∧ ¬ q ∧ v ≤ v) ∨ (q ∧ ¬ p ∧ w ≤ w) ∨ ¬ p ∧ ¬ q ∧ (v ≤ v ↔ ¬ w ≤ w)) :
    (if p then v else if w ≤ w then w else v) = if q then w else if v ≤ v then v else w := by
  obtain rfl | ⟨hp, hq, hv⟩ | ⟨hq, hp, hw⟩ | ⟨hp, hq, hself⟩ := h
  · simp only [ite_self]
  · rw [if_pos hp, if_neg hq, if_pos hv]
  · rw [if_neg hp, if_pos hw, if_pos hq]
  · rw [if_neg hp, if_neg hq]
    by_cases hw : w ≤ w
    · rw [if_pos hw, if_neg (hself.not.2 (not_not.2 hw))]
    · rw [if_neg hw, if_pos (hself.2 hw)]

theorem IsSigned.lesser_comm {s : Sign} {v w : Float} (hv : IsSigned s v) (hw : IsSigned s w) :
    Scalar.lesser v w = Scalar.lesser w v := by
  refine choice_comm ?_
  obtain h | ⟨h, h', hv, -⟩ | ⟨h, h', -, hw⟩ | ⟨h, h', hself⟩ := hv.compared hw
  · exact .inl h
  · exact .inr (.inl ⟨h, h', hv⟩)
  · exact .inr (.inr (.inl ⟨h, h', hw⟩))
  · exact .inr (.inr (.inr ⟨h, h', hself⟩))

theorem IsSigned.greater_comm {s : Sign} {v w : Float} (hv : IsSigned s v) (hw : IsSigned s w) :
    Scalar.greater v w = Scalar.greater w v := by
  refine choice_comm ?_
  obtain h | ⟨h, h', -, hw⟩ | ⟨h, h', hv, -⟩ | ⟨h, h', hself⟩ := hv.compared hw
  · exact .inl h
  · exact .inr (.inr (.inl ⟨h, h', hw⟩))
  · exact .inr (.inl ⟨h, h', hv⟩)
  · exact .inr (.inr (.inr ⟨h', h, hself⟩))

end Double

/-! ## Lines -/

namespace Grid

variable {α : Type}

/-- The lowest and the highest of the lines that a range of courses covers. All courses are covered
if there is no range. -/
def covered (g : Grid α) (range : Option (Nat × Nat)) : Nat × Nat :=
  let (first, last) := range.getD (1, g.courses)
  let line course := g.orientation.linePosition course g.courses
  (min (line first) (line last), max (line first) (line last))

variable [Scalar α]

/-- How far a line lies above the bottom line. -/
def lineOffset (g : Grid α) (line : Nat) : α := Scalar.count (line - 1) * g.courseSpacing

/-- The barberpole over the lines from one to another. -/
def barberpoleOver (g : Grid α) (width : α) (slot : Nat) (lines : Nat × Nat) : Barberpole α where
  slot
  range := none
  x := g.slotX slot
  y := g.y
  width
  staveHeight := g.height
  courseSpacing := g.courseSpacing
  lower := Scalar.lesser (g.lineOffset lines.1) (g.lineOffset lines.2)
  upper := Scalar.greater (g.lineOffset lines.1) (g.lineOffset lines.2)

/-- The drawing of a barberpole on a stave. -/
def drawBarberpole (g : Grid α) (l : Layout α) (slot : Nat) (range : Option (Nat × Nat)) :
    List (Command α) :=
  ((Mark.barberpole slot range).place g l).draw

/-- All lines lie on the same side of the bottom line. -/
theorem exists_isSigned_lineOffset (g : Grid Float) :
    ∃ s, ∀ line, Double.IsSigned s (g.lineOffset line) := by
  obtain ⟨s, hs⟩ := Double.exists_isSigned g.courseSpacing
  exact ⟨_, fun line => (Double.isSigned_ofNat (line - 1)).mul hs⟩

end Grid

/-- Of the courses of a barberpole only the lines that they cover matter to its place. -/
theorem Barberpole.setOn_eq (g : Grid Float) (b : Barberpole Float) :
    { b.setOn g with range := none } =
      g.barberpoleOver b.width b.slot (g.covered b.range) := by
  obtain ⟨s, hs⟩ := g.exists_isSigned_lineOffset
  simp only [setOn, Grid.covered]
  generalize b.range.getD (1, g.courses) = courses
  rcases le_total (g.orientation.linePosition courses.1 g.courses)
    (g.orientation.linePosition courses.2 g.courses) with h | h
  · rw [min_eq_left h, max_eq_right h]
    rfl
  · rw [min_eq_right h, max_eq_left h, Grid.barberpoleOver, (hs _).lesser_comm (hs _),
      (hs _).greater_comm (hs _)]
    rfl

namespace Grid

theorem covered_swap {α : Type} (g : Grid α) (a b : Nat) :
    g.covered (some (a, b)) = g.covered (some (b, a)) :=
  Prod.ext (min_comm _ _) (max_comm _ _)

/-- The courses of a french stave cover the lines of the courses that are counted from the other
end of an italian one. -/
theorem covered_french {α : Type} (g : Grid α) (a b : Nat) :
    (g.facing .french).covered (some (a, b)) =
      (g.facing .italian).covered (some (g.courses + 1 - a, g.courses + 1 - b)) := by
  simp only [covered, facing, Option.getD_some, Orientation.linePosition_french,
    Orientation.linePosition_italian]

/-- A barberpole is drawn over the lines that its courses cover. -/
theorem drawBarberpole_eq (g : Grid Float) (l : Layout Float) (slot : Nat)
    (range : Option (Nat × Nat)) : g.drawBarberpole l slot range =
      (g.barberpoleOver l.barberpoleSpacing slot (g.covered range)).draw := by
  obtain ⟨b, hb, rfl, rfl, hwidth⟩ : ∃ b : Barberpole Float,
      (Mark.barberpole slot range).place g l = .barberpole (b.setOn g) ∧ b.slot = slot ∧
        b.range = range ∧ b.width = l.barberpoleSpacing :=
    ⟨_, rfl, rfl, rfl, rfl⟩
  rw [drawBarberpole, hb, ← hwidth, ← Barberpole.setOn_eq]
  rfl

/-- The lines of a barberpole can be counted, and its drawing depends on its courses only through
the lines that they cover, with the rounding of doubles and whatever the spacing of the courses is.
So the courses may be given in either order, all of them need not be given, and on a french stave
they are those that are counted from the other end of an italian one. -/
theorem drawBarberpole_of_covered (g : Grid Float) (h : g.courses < Count.max) (l : Layout Float)
    (slot : Nat) :
    (∀ o range, (g.facing o).counts (.barberpole slot range) = true) ∧
    (∀ o range, (g.facing o).drawBarberpole l slot range =
      (g.barberpoleOver l.barberpoleSpacing slot ((g.facing o).covered range)).draw) ∧
    (∀ a b, g.drawBarberpole l slot (some (a, b)) = g.drawBarberpole l slot (some (b, a))) ∧
    g.drawBarberpole l slot none = g.drawBarberpole l slot (some (1, g.courses)) ∧
    ∀ a b, (g.facing .french).drawBarberpole l slot (some (a, b)) =
      (g.facing .italian).drawBarberpole l slot
        (some (g.courses + 1 - a, g.courses + 1 - b)) := by
  have hover (o : Orientation) (range : Option (Nat × Nat)) :
      (g.facing o).drawBarberpole l slot range =
        (g.barberpoleOver l.barberpoleSpacing slot ((g.facing o).covered range)).draw :=
    (g.facing o).drawBarberpole_eq l slot range
  have hcount (o : Orientation) : (g.facing o).isCountable = true := isCountable_iff.2 fun _ => h
  refine ⟨fun o range => ?_, hover, fun a b => ?_, rfl, fun a b => ?_⟩
  · rw [counts_eq, hcount, Bool.or_true]
  · rw [drawBarberpole_eq, covered_swap, ← drawBarberpole_eq]
  · rw [hover, covered_french, ← hover]

/-- On a stave with six courses, from the second course to the fifth and back, and from one end. -/
theorem drawBarberpole_second_to_fifth :
    let g : Grid Float :=
      { x := 40.0, y := 100.0, length := 515.0, slots := 24, courses := 6, courseSpacing := 7.5,
        orientation := .french }
    let l : Layout Float := .initial
    g.courses < Count.max ∧ g.counts (.barberpole 3 (some (1, 4))) = true ∧
      (g.facing .french).covered (some (1, 4)) = (3, 6) ∧
      (g.facing .french).drawBarberpole l 3 (some (1, 4)) =
        (g.barberpoleOver l.barberpoleSpacing 3 (3, 6)).draw ∧
      g.drawBarberpole l 3 (some (2, 5)) = g.drawBarberpole l 3 (some (5, 2)) ∧
      g.drawBarberpole l 3 (some (2, 5)) ≠ g.drawBarberpole l 3 (some (2, 4)) ∧
      g.drawBarberpole l 3 none = g.drawBarberpole l 3 (some (1, 6)) ∧
      (g.facing .french).drawBarberpole l 3 (some (2, 2)) =
        (g.facing .italian).drawBarberpole l 3 (some (5, 5)) := by
  intro g l
  have h : g.courses < Count.max := by decide
  obtain ⟨hcounts, hover, hswap, hall, hfrench⟩ := drawBarberpole_of_covered g h l 3
  exact ⟨h, hcounts .french (some (1, 4)), rfl, hover .french (some (1, 4)), hswap 2 5,
    by decide +kernel, hall, hfrench 2 2⟩

end Grid

end Tablature
