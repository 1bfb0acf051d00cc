import Mathlib.Data.List.Forall2
import Tablature.Document

/-!
# Justifying once

Justifying looks at a stave before it changes anything of it: a stave that has been given
room, has no second slot to give it to, or is not nearly full is left alone. A stave that
is given room keeps it, so justifying a second time changes nothing. What the first time
changes is where glyphs stand from left to right, and nothing else of the document.

* `Glyph.SlidTo`, `Stave.JustifiedTo`, `Page.JustifiedTo`: what may be changed of a glyph, a
  stave and a page;
* `Stave.IsLeftAlone`, `justify_eq_self_iff`: the staves that are not changed at all;
* `Stave.justify_justify`: a justified stave is one of them;
* `Document.justify_once`: the document justified, and justified again.

No law of arithmetic is used: a stave is left alone by the test that is evaluated.
-/

namespace Tablature

variable {α : Type}

/-! ## Glyphs -/

/-- The second glyph is the first one with other `x` coordinates. -/
inductive Glyph.SlidTo : Glyph α → Glyph α → Prop where
  | note (n : Note α) (x : α) : SlidTo (.note n) (.note { n with x })
  | tick (t : Tick α) (x : α) : SlidTo (.tick t) (.tick { t with x })
  | barline (b : Barline α) (x : α) : SlidTo (.barline b) (.barline { b with x })
  | barberpole (b : Barberpole α) (x : α) : SlidTo (.barberpole b) (.barberpole { b with x })
  | timeSignature (t : TimeSignature α) (x : α) :
      SlidTo (.timeSignature t) (.timeSignature { t with x })
  | semicircle (s : Semicircle α) (x : α) : SlidTo (.semicircle s) (.semicircle { s with x })
  | slur (s : Slur α) (x₁ x₂ x₃ : α) : SlidTo (.slur s) (.slur { s with x₁, x₂, x₃ })
  | sectionSign (s : SectionSign α) (x : α) : SlidTo (.sectionSign s) (.sectionSign { s with x })
  | alfabeto (a : Alfabeto α) (x : α) : SlidTo (.alfabeto a) (.alfabeto { a with x })
  | strum (s : Strum α) (x : α) : SlidTo (.strum s) (.strum { s with x })

namespace Glyph.SlidTo

theorem refl (x : Glyph α) : SlidTo x x := by
  cases x with
  | note n => exact .note n n.x
  | tick t => exact .tick t t.x
  | barline b => exact .barline b b.x
  | barberpole b => exact .barberpole b b.x
  | timeSignature t => exact .timeSignature t t.x
  | semicircle s => exact .semicircle s s.x
  | slur s => exact .slur s s.x₁ s.x₂ s.x₃
  | sectionSign s => exact .sectionSign s s.x
  | alfabeto a => exact .alfabeto a a.x
  | strum s => exact .strum s s.x

/-- Padding sets the `x` coordinates of a glyph, or none of them. -/
theorem pad [Scalar α] (p : α) (x : Glyph α) : SlidTo x (x.pad p) := by
  cases x with
  | note n => exact .note n _
  | tick t => exact .tick t _
  | barline b =>
    simp only [Glyph.pad]
    split
    · exact refl _
    · exact .barline b _
  | barberpole b => exact .barberpole b _
  | timeSignature t => exact .timeSignature t _
  | semicircle s => exact .semicircle s _
  | slur s => exact .slur s _ _ _
  | sectionSign s => exact .sectionSign s _
  | alfabeto a => exact .alfabeto a _
  | strum s => exact .strum s _

end Glyph.SlidTo

variable [Scalar α]

/-! ## Staves -/

namespace Stave

/-- The stave has been justified before, has less than two slots written, or is not more than three
quarters full. -/
def IsLeftAlone (v : Stave α) : Prop :=
  v.padding.isSome = true ∨ v.cursor ≤ 1 ∨
    (Scalar.count v.slots / 4.0 : α) ≤ Scalar.count v.slots - Scalar.count v.cursor + 1.0

/-- The second stave is the first one, with some padding and its glyphs slid along it. It is the
first one as it was if that is left alone, and only then. -/
structure JustifiedTo (v w : Stave α) : Prop where
  rest : w = { v with glyphs := w.glyphs, padding := w.padding }
  glyphs : List.Forall₂ Glyph.SlidTo v.glyphs w.glyphs
  unchanged : w = v ↔ v.IsLeftAlone

variable {v : Stave α}

theorem slack?_eq_none_iff : v.slack? = none ↔ v.IsLeftAlone := by
  unfold slack? IsLeftAlone
  by_cases hguard : v.padding.isSome = true ∨ v.cursor ≤ 1
  · have hnone : (v.padding.isSome || decide (v.cursor ≤ 1)) = true := by simpa using hguard
    rw [if_pos hnone, ← or_assoc]
    exact iff_of_true rfl (.inl hguard)
  · have hsome : ¬ (v.padding.isSome || decide (v.cursor ≤ 1)) = true := by simpa using hguard
    rw [if_neg hsome, ← or_assoc, or_iff_right hguard]
    exact ⟨fun h => by_contra fun hroom => by simp [hroom] at h, fun h => if_pos h⟩

theorem justify_of_isLeftAlone (h : v.IsLeftAlone) : v.justify = v := by
  rw [justify, slack?_eq_none_iff.2 h]

theorem exists_justify_of_not (h : ¬ v.IsLeftAlone) : ∃ p : α,
    v.justify = { v with glyphs := v.glyphs.map (Glyph.pad p), padding := some p } := by
  obtain ⟨p, hp⟩ := Option.ne_none_iff_exists'.1 (slack?_eq_none_iff.not.2 h)
  exact ⟨p, by rw [justify, hp]⟩

/-- A stave without padding is changed when it is given some. -/
theorem justify_eq_self_iff : v.justify = v ↔ v.IsLeftAlone := by
  refine ⟨fun h => by_contra fun hroom => ?_, justify_of_isLeftAlone⟩
  obtain ⟨p, hp⟩ := exists_justify_of_not hroom
  have hpadding : v.padding = some p := by rw [← h, hp]
  exact hroom (.inl (by rw [hpadding]; rfl))

theorem isLeftAlone_justify (v : Stave α) : v.justify.IsLeftAlone := by
  by_cases h : v.IsLeftAlone
  · rwa [justify_of_isLeftAlone h]
  · obtain ⟨p, hp⟩ := exists_justify_of_not h
    rw [hp]
    exact .inl rfl

theorem justify_justify (v : Stave α) : v.justify.justify = v.justify :=
  justify_of_isLeftAlone v.isLeftAlone_justify

theorem justifiedTo_justify (v : Stave α) : v.JustifiedTo v.justify := by
  by_cases h : v.IsLeftAlone
  · refine ⟨?_, ?_, justify_eq_self_iff⟩
    · rw [justify_of_isLeftAlone h]
    · rw [justify_of_isLeftAlone h]
      exact List.forall₂_same.2 fun x _ => .refl x
  · obtain ⟨p, hp⟩ := exists_justify_of_not h
    refine ⟨?_, ?_, justify_eq_self_iff⟩
    · rw [hp]
    · rw [hp]
      exact List.forall₂_map_right_iff.2 (List.forall₂_same.2 fun x _ => .pad p x)

end Stave

/-! ## Documents -/

namespace Page

/-- The second page is the first one with its staves justified. -/
structure JustifiedTo (p q : Page α) : Prop where
  rest : q = { p with staves := q.staves }
  staves : List.Forall₂ Stave.JustifiedTo p.staves q.staves

theorem justify_justify (p : Page α) : p.justify.justify = p.justify := by
  have hstaves : p.justify.justify.staves = p.justify.staves := by
    simp only [justify, List.map_map]
    exact List.map_congr_left fun v _ => v.justify_justify
  exact congrArg (fun staves => { p with staves }) hstaves

theorem justifiedTo_justify (p : Page α) : p.JustifiedTo p.justify where
  rest := rfl
  staves := List.forall₂_map_right_iff.2 (List.forall₂_same.2 fun v _ => v.justifiedTo_justify)

end Page

/-- To justify a document a second time changes nothing. The first time leaves its pages as they
were but for their staves, and each stave as it was but for its padding and the `x` coordinates of
its glyphs; and it leaves the stave entirely as it was if this has been justified before, has less
than two slots written, or is not more than three quarters full. -/
theorem Document.justify_once (d : Document α) :
    d.justify.justify = d.justify ∧ List.Forall₂ Page.JustifiedTo d.pages d.justify.pages := by
  constructor
  · simp only [justify, List.map_map]
    exact congrArg Document.mk (List.map_congr_left fun p _ => p.justify_justify)
  · exact List.forall₂_map_right_iff.2 (List.forall₂_same.2 fun p _ => p.justifiedTo_justify)

end Tablature
