import Mathlib.Tactic.Linarith
import Tablature.Proofs.Coherence
import Tablature.Proofs.Measure

/-!
# Staves above one another

A stave is put where there would be room if all the staves before it on its page
were of its own height. So in exact arithmetic it lies below each of them that is
not higher than itself, but it may lie across one that is.

* `Page.Ruled`: where the staves of a page lie, and that no measure is negative;
* `isBelow_iff`: which of two staves of a page lie one below the other;
* `isBelow_iff_of_parse`: the same of the document of a source.
-/

namespace Tablature

/-- The top line of a stave is not above the bottom line of another. -/
def Stave.IsBelow (w v : Stave Rat) : Prop := w.y + w.height ≤ v.y

instance (w v : Stave Rat) : Decidable (w.IsBelow v) := inferInstanceAs (Decidable (_ ≤ _))

theorem IsLength.nonneg {r : Rat} (h : IsLength r) : 0 ≤ r := by
  have h : (0.0 : Rat) ≤ r := h.2
  norm_num at h
  exact h

theorem Stave.Measured.height_nonneg {v : Stave Rat} (h : v.Measured) : 0 ≤ v.height :=
  mul_nonneg (Nat.cast_nonneg (v.courses - 1)) h.courseSpacing.nonneg

namespace Page

/-- The staves of a page lie where those before them leave room, and neither they nor the room
between them has a negative height. -/
structure Ruled (p : Page Rat) : Prop where
  stacked : p.Stacked
  measured : p.Measured
  staves : ∀ v ∈ p.staves, 0 ≤ v.height

theorem ruled_of_stepAll {s : Score Rat} {lines : List NumberedLine}
    (h : Score.empty.stepAll lines = .ok s) : ∀ p ∈ s.document.pages, p.Ruled := by
  intro p hp
  have hs := invariant_stacked.stepAll h (fun p hp => by cases hp) p hp
  obtain ⟨hm, hv⟩ :=
    (invariant_measured.stepAll h (Score.everywhere_empty Layout.measured_initial_rat)).pages p hp
  exact ⟨hs, hm, fun v h => (hv v h).height_nonneg⟩

/-- Justifying moves no stave. -/
theorem Stacked.justify {α : Type} [Scalar α] {p : Page α} (h : p.Stacked) : p.justify.Stacked := by
  have e : p.justify.staves.map Stave.toGrid = p.staves.map Stave.toGrid := by
    simp [Page.justify, Function.comp_def]
  unfold Stacked
  rw [e]
  exact h

theorem Ruled.justify {p : Page Rat} (h : p.Ruled) : p.justify.Ruled where
  stacked := h.stacked.justify
  measured :=
    have hm := h.measured
    ⟨hm.width, hm.height, hm.topMargin, hm.leftMargin, hm.rightMargin, hm.staveSeparation⟩
  staves v hv := by
    obtain ⟨u, hu, rfl⟩ := List.mem_map.1 hv
    rw [Stave.toGrid_justify]
    exact h.staves u hu

variable {p : Page Rat}

theorem Stacked.y_eq (h : p.Stacked) {i : Nat} {v : Stave Rat} (hv : p.staves[i]? = some v) :
    v.y = p.height - p.topMargin - i * (v.height + p.staveSeparation) :=
  (h i v.toGrid (by rw [List.getElem?_map, hv]; rfl)).2.1

/-- A stave lies below an earlier one if and only if the staves before the earlier one, all as
high as that, take no more room than the other staves above the later one, all as high as this. -/
theorem Stacked.isBelow_iff (h : p.Stacked) {i j : Nat} {v w : Stave Rat}
    (hv : p.staves[i]? = some v) (hw : p.staves[j]? = some w) :
    w.IsBelow v ↔
      i * (v.height + p.staveSeparation) ≤ (j - 1) * w.height + j * p.staveSeparation := by
  unfold Stave.IsBelow
  rw [h.y_eq hv, h.y_eq hw]
  constructor <;> intro h <;> linarith

/-- A stave lies below the first one, and below each earlier one that is not higher. -/
theorem Ruled.isBelow (h : p.Ruled) {i j : Nat} {v w : Stave Rat} (hv : p.staves[i]? = some v)
    (hw : p.staves[j]? = some w) (hij : i < j) (hle : i = 0 ∨ v.height ≤ w.height) :
    w.IsBelow v := by
  have hw₀ : 0 ≤ w.height := h.staves w (List.mem_of_getElem? hw)
  have hsep : 0 ≤ p.staveSeparation := h.measured.staveSeparation.nonneg
  have hij : (i : Rat) + 1 ≤ j := by exact_mod_cast hij
  have hi : (0 : Rat) ≤ i := Nat.cast_nonneg i
  rw [h.stacked.isBelow_iff hv hw]
  have hheights : i * v.height ≤ (j - 1) * w.height := by
    rcases hle with rfl | hle
    · rw [Nat.cast_zero, zero_mul]
      exact mul_nonneg (by linarith) hw₀
    · calc (i : Rat) * v.height ≤ i * w.height := mul_le_mul_of_nonneg_left hle hi
        _ ≤ (j - 1) * w.height := mul_le_mul_of_nonneg_right (by linarith) hw₀
  have hseparations : i * p.staveSeparation ≤ j * p.staveSeparation :=
    mul_le_mul_of_nonneg_right (by linarith) hsep
  linarith

end Page

namespace Score

/-- Which of two staves of a page lie one below the other, whatever lines come between them: the
later stave lies below the earlier one if and only if there is room above it, and there is if
the earlier one is the first of the page or not higher. -/
theorem isBelow_iff_of_parse {source : String} {d : Document Rat} (h : parse source = .ok d) :
    ∀ p ∈ d.pages, ∀ (i j : Nat) (v w : Stave Rat), p.staves[i]? = some v →
      p.staves[j]? = some w → i < j →
      (w.IsBelow v ↔
        i * (v.height + p.staveSeparation) ≤ (j - 1) * w.height + j * p.staveSeparation) ∧
      (i = 0 ∨ v.height ≤ w.height → w.IsBelow v) := by
  obtain ⟨s, hs, rfl⟩ := parse_eq_ok.1 h
  intro p hp i j v w hv hw hij
  have hr : p.Ruled :=
    forall_finish (Q := Page.Ruled) (fun h => h.justify) (Page.ruled_of_stepAll hs) p hp
  exact ⟨hr.stacked.isBelow_iff hv hw, hr.isBelow hv hw hij⟩

/-- A stave of eleven courses between two of five. -/
theorem heights_between_lower : ∃ d : Document Rat,
    parse "P-1\nS-\nNUMBEROFCOURSES 11\nS-\nNUMBEROFCOURSES 5\nS-" = .ok d ∧
      d.pages.map (fun p => p.staves.map fun v => (v.y, v.height)) =
        [[(642, 40), (494, 100), (466, 40)]] := by
  have h : ((parse "P-1\nS-\nNUMBEROFCOURSES 11\nS-\nNUMBEROFCOURSES 5\nS-").toOption.map
      fun d : Document Rat => d.pages.map fun p => p.staves.map fun v => (v.y, v.height)) =
      some [[(642, 40), (494, 100), (466, 40)]] := by
    decide +kernel
  exact exists_of_toOption_map h

/-- The last of these staves is below the first, as the second is. -/
theorem isBelow_iff_between_lower : ∃ d : Document Rat,
    parse "P-1\nS-\nNUMBEROFCOURSES 11\nS-\nNUMBEROFCOURSES 5\nS-" = .ok d ∧
      d.pages.map (fun p => p.staves.map fun v => (v.y, v.height)) =
        [[(642, 40), (494, 100), (466, 40)]] ∧
      ∀ p ∈ d.pages, ∀ (i j : Nat) (v w : Stave Rat), p.staves[i]? = some v →
        p.staves[j]? = some w → i < j →
        (w.IsBelow v ↔
          i * (v.height + p.staveSeparation) ≤ (j - 1) * w.height + j * p.staveSeparation) ∧
        (i = 0 ∨ v.height ≤ w.height → w.IsBelow v) := by
  obtain ⟨d, hd, hv⟩ := heights_between_lower
  exact ⟨d, hd, hv, isBelow_iff_of_parse hd⟩

/-- The staves of a page do not always lie one below the other: the last of these lies across the
second. -/
theorem exists_not_isBelow : ¬ ∀ (source : String) (d : Document Rat), parse source = .ok d →
    ∀ p ∈ d.pages, ∀ (i j : Nat) (v w : Stave Rat), p.staves[i]? = some v →
      p.staves[j]? = some w → i < j → w.IsBelow v := by
  intro hall
  obtain ⟨d, hd, hv⟩ := heights_between_lower
  obtain ⟨p, hpages, hp⟩ := List.map_eq_singleton_iff.1 hv
  obtain ⟨u, vs, hstaves, -, hvs⟩ := List.map_eq_cons_iff.1 hp
  obtain ⟨v, ws, rfl, hv, hws⟩ := List.map_eq_cons_iff.1 hvs
  obtain ⟨w, rfl, hw⟩ := List.map_eq_singleton_iff.1 hws
  obtain ⟨hvy, -⟩ := Prod.mk.inj hv
  obtain ⟨hwy, hwheight⟩ := Prod.mk.inj hw
  have h : w.IsBelow v := hall _ d hd p (by simp [hpages]) 1 2 v w (by rw [hstaves]; rfl)
    (by rw [hstaves]; rfl) (by decide)
  rw [Stave.IsBelow, hvy, hwy, hwheight] at h
  norm_num at h

end Score

end Tablature
