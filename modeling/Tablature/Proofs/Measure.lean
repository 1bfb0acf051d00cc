import Mathlib.Algebra.Order.Field.Rat
import Mathlib.Tactic.NormNum
import Tablature.Proofs.Step
import Tablature.Proofs.Worth

/-!
# Measures

Every length in a layout is finite and not negative, and no count is zero, whatever
directives come; and so are the measures that pages and staves take from it.

* `LawfulScalar`: number types in which a length that is left over and a count have
  the sign they should have; doubles and rationals are such types;
* `Layout.Measured`, `measured_obey`: the lengths and counts of a layout, and that a
  line keeps them in order;
* `Page.Measured`, `invariant_measured`: the same of a page and its staves.
-/

namespace Tablature

/-- Number types in which it is known which numbers are finite, such that what is read is finite,
and such that the remainder of a length and the number of a count have the right sign. -/
class LawfulScalar (α : Type) [Scalar α] where
  IsFinite : α → Prop
  isFinite_of_finite? {n : Numeral} {v : α} : Scalar.finite? n = some v → IsFinite v
  zero_lt_sub_sub {a b c : α} : IsFinite a → IsFinite b → IsFinite c →
    ¬ a - b - c ≤ 0.0 → (0.0 : α) < a - b - c
  zero_lt_count {n : Nat} : 0 < n → (0.0 : α) < Scalar.count n

instance : LawfulScalar Float where
  IsFinite v := v.isFinite = true
  isFinite_of_finite? h := by
    simp only [Scalar.finite?, Option.ite_none_right_eq_some, Option.some.injEq] at h
    rw [← h.2]
    exact h.1
  zero_lt_sub_sub := Double.zero_lt_sub_sub
  zero_lt_count := Double.zero_lt_ofNat

instance : LawfulScalar Rat where
  IsFinite _ := True
  isFinite_of_finite? _ := trivial
  zero_lt_sub_sub _ _ _ h := not_le.1 h
  zero_lt_count h := by
    rw [show (0.0 : Rat) = 0 by norm_num]
    exact Nat.cast_pos.2 h

/-! ## Layouts -/

/-- Every length that a layout has. -/
def Layout.lengths {α : Type} (l : Layout α) : List α :=
  [l.pageWidth, l.pageHeight, l.topMargin, l.bottomMargin, l.leftMargin, l.rightMargin,
    l.staveSeparation, l.courseSpacing, l.courseStyle.size, l.barlineSpacing, l.barberpoleSpacing,
    l.barlineStyle.size, l.tickRadius, l.titleStyle.size, l.composerStyle.size, l.fretStyle.size,
    l.sectionSize] ++ l.titleHeight.toList ++ l.composerHeight.toList ++ l.alfabetoSize.toList

variable {α : Type}

/-- Setting a length brings in no other. -/
theorem Layout.eq_or_mem_of_mem_setLength {l : Layout α} {v w : α} {s : LengthSetting}
    (h : w ∈ (l.setLength v s).lengths) : w = v ∨ w ∈ l.lengths := by
  cases s <;> simp [lengths, setLength] at h ⊢ <;> grind

theorem pos_of_readCount {cs : List Char} {n : Nat} (h : readCount cs = .ok n) : 1 ≤ n := by
  unfold readCount at h
  split at h
  · cases h
  · cases h
  · rename_i hn _
    cases h
    exact Nat.pos_of_ne_zero hn

variable [Scalar α] [LawfulScalar α]

/-- A finite number that is not negative. -/
def IsLength (v : α) : Prop := LawfulScalar.IsFinite v ∧ (0.0 : α) ≤ v

/-- What is read as a length is one. -/
theorem isLength_of_readLength {cs : List Char} {v : α} (h : readLength cs = .ok v) :
    IsLength v := by
  unfold readLength at h
  split at h
  · cases h
  · split at h
    · cases h
    · rename_i hv
      split at h
      · rename_i hle
        cases h
        exact ⟨LawfulScalar.isFinite_of_finite? hv, hle⟩
      · cases h

namespace Layout

/-- The lengths of a layout are lengths, and it has slots and courses. -/
structure Measured (l : Layout α) : Prop where
  lengths : ∀ v ∈ l.lengths, IsLength v
  slots : 1 ≤ l.slots
  numberOfCourses : 1 ≤ l.numberOfCourses

theorem measured_set {l l' : Layout α} {s : Setting} {value : String} (hl : l.Measured)
    (h : l.set s value = .ok l') : l'.Measured := by
  cases s with
  | length s =>
    rw [set_length] at h
    obtain ⟨v, hv, rfl⟩ := map_eq_ok.1 h
    have hcounts : (l.setLength v s).slots = l.slots ∧
        (l.setLength v s).numberOfCourses = l.numberOfCourses := by
      cases s <;> exact ⟨rfl, rfl⟩
    refine ⟨fun w hw => ?_, hcounts.1 ▸ hl.slots, hcounts.2 ▸ hl.numberOfCourses⟩
    obtain rfl | hw := eq_or_mem_of_mem_setLength hw
    · exact isLength_of_readLength hv
    · exact hl.lengths w hw
  | count s =>
    rw [set_count] at h
    obtain ⟨n, hn, rfl⟩ := map_eq_ok.1 h
    cases s with
    | slots => exact ⟨hl.lengths, pos_of_readCount hn, hl.numberOfCourses⟩
    | numberOfCourses => exact ⟨hl.lengths, hl.slots, pos_of_readCount hn⟩
  | face s =>
    rw [set_face] at h
    obtain ⟨face, -, rfl⟩ := map_eq_ok.1 h
    cases s <;> exact ⟨hl.lengths, hl.slots, hl.numberOfCourses⟩

/-- The number of courses is that of a list that is not empty. -/
theorem measured_setCourses {l l' : Layout α} {list : String} (hl : l.Measured)
    (h : l.setCourses list = .ok l') : l'.Measured := by
  rw [setCourses_eq] at h
  obtain ⟨courses, -, h⟩ := bind_eq_ok.1 h
  split at h
  · cases h
  · rename_i hne
    cases h
    exact ⟨hl.lengths, hl.slots, List.length_pos_iff.2 (by simpa using hne)⟩

theorem measured_setFretMap {l l' : Layout α} {list : String} (hl : l.Measured)
    (h : l.setFretMap list = .ok l') : l'.Measured := by
  rw [setFretMap_eq] at h
  split at h
  · cases h; exact hl
  · obtain ⟨pairs, -, rfl⟩ := map_eq_ok.1 h
    exact ⟨hl.lengths, hl.slots, hl.numberOfCourses⟩

/-- A line keeps the lengths and counts of the layout in order. -/
theorem measured_obey {l l' : Layout α} {line : Line} (hl : l.Measured)
    (h : l.obey line = .ok l') : l'.Measured := by
  cases line with
  | setting s value => exact measured_set hl h
  | courses list => exact measured_setCourses hl h
  | flag f => cases h; cases f <;> exact ⟨hl.lengths, hl.slots, hl.numberOfCourses⟩
  | fretMap list => exact measured_setFretMap hl h
  | _ => cases h; exact hl

/-- The layout before the first line, over doubles. -/
theorem measured_initial_float : (initial : Layout Float).Measured := by
  refine ⟨?_, by decide, by decide⟩
  have h : ∀ v ∈ (initial : Layout Float).lengths, v.isFinite = true ∧ (0.0 : Float) ≤ v := by
    decide +kernel
  exact h

/-- The layout before the first line, over the rationals. -/
theorem measured_initial_rat : (initial : Layout Rat).Measured := by
  refine ⟨?_, by decide, by decide⟩
  have h : ∀ v ∈ (initial : Layout Rat).lengths, (0.0 : Rat) ≤ v := by decide +kernel
  exact fun v hv => ⟨trivial, h v hv⟩

end Layout

/-! ## Pages and staves -/

/-- The measures of a stave. -/
structure Stave.Measured (v : Stave α) : Prop where
  courseSpacing : IsLength v.courseSpacing
  slots : 1 ≤ v.slots
  courses : 1 ≤ v.courses

/-- The measures of a page. -/
structure Page.Measured (p : Page α) : Prop where
  width : IsLength p.width
  height : IsLength p.height
  topMargin : IsLength p.topMargin
  leftMargin : IsLength p.leftMargin
  rightMargin : IsLength p.rightMargin
  staveSeparation : IsLength p.staveSeparation

namespace Page

theorem measured_blank {l : Layout α} (hl : l.Measured) (number : Nat) (first : Bool) :
    (blank l number first).Measured := by
  constructor <;> exact hl.lengths _ (by simp [Layout.lengths, blank])

/-- The measures of pages are lengths. -/
theorem invariant_measures : Score.Invariant (α := α) Layout.Measured Measured where
  obey := Layout.measured_obey
  blank number first hl := measured_blank hl number first
  append _ hp h := by
    obtain ⟨-, rfl⟩ := append_eq_ok.1 h
    exact ⟨hp.width, hp.height, hp.topMargin, hp.leftMargin, hp.rightMargin, hp.staveSeparation⟩
  setTitle _ _ hp :=
    ⟨hp.width, hp.height, hp.topMargin, hp.leftMargin, hp.rightMargin, hp.staveSeparation⟩
  setComposer _ _ hp :=
    ⟨hp.width, hp.height, hp.topMargin, hp.leftMargin, hp.rightMargin, hp.staveSeparation⟩
  act hp _ _ :=
    ⟨hp.width, hp.height, hp.topMargin, hp.leftMargin, hp.rightMargin, hp.staveSeparation⟩

/-- The measures of staves are lengths and counts. -/
theorem invariant_measured : Score.Invariant (α := α) Layout.Measured
    fun p => p.Measured ∧ ∀ v ∈ p.staves, v.Measured :=
  invariant_measures.and_staves
    (fun _ _ hl _ _ => ⟨hl.lengths _ (by simp [Layout.lengths, Stave.blank, Stave.moveTo]),
      hl.slots, hl.numberOfCourses⟩)
    (fun h hv => by
      cases h with
      | endSlur _ h =>
        obtain ⟨start, -, rfl⟩ := Option.map_eq_some_iff.1 h
        exact ⟨hv.courseSpacing, hv.slots, hv.courses⟩
      | _ => exact ⟨hv.courseSpacing, hv.slots, hv.courses⟩)

end Page

end Tablature
