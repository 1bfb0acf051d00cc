import Mathlib.Data.List.Forall2
import Mathlib.Tactic.FieldSimp
import Mathlib.Tactic.Ring
import Tablature.Proofs.Stacking
import Tablature.Proofs.WellFormed

/-!
# Justified staves

Justifying moves glyphs that were put in their places long before. In exact arithmetic
it puts them where they would have been put on another grid, of the same length, whose
slots end with the last one written.

* `Grid.withSlots`, `slotX_add_room`: the other grid, and the room that leads to it;
* `pad_setOn`: padding a glyph by that room puts it on the other grid;
* `Stave.slack?_eq`, `justify_ne_iff`: which staves are justified, over the integers;
* `left_lt_left`: glyphs of a kind stand in the order of their slots;
* `justify_of_stepAll`: what justifying does to the staves of a source.
-/

namespace Tablature

/-- The same length divided into another number of slots. -/
def Grid.withSlots {α : Type} (g : Grid α) (slots : Nat) : Grid α := { g with slots }

/-! ## Slots -/

namespace Grid

variable {g : Grid Rat}

theorem slotX_zero : g.slotX 0 = g.x := by
  change g.x + ((0 : Nat) : Rat) * g.slotWidth = g.x
  rw [Nat.cast_zero, zero_mul, add_zero]

/-- The end of the last slot is the right end of the stave. -/
theorem slotX_slots (h : 1 ≤ g.slots) : g.slotX g.slots = g.x + g.length := by
  have h₀ : (g.slots : Rat) ≠ 0 := Nat.cast_ne_zero.2 (by omega)
  change g.x + (g.slots : Rat) * (g.length / g.slots) = g.x + g.length
  rw [mul_div_cancel₀ _ h₀]

theorem slotX_lt_slotX (hslots : 1 ≤ g.slots) (hlength : 0 < g.length) {a b : Nat} (h : a < b) :
    g.slotX a < g.slotX b := by
  have hwidth : 0 < g.length / g.slots := div_pos hlength (Nat.cast_pos.2 hslots)
  have hab : (a : Rat) < b := Nat.cast_lt.2 h
  change g.x + (a : Rat) * (g.length / g.slots) < g.x + (b : Rat) * (g.length / g.slots)
  linarith [mul_lt_mul_of_pos_right hab hwidth]

/-- The slots that there are too many or too few of, spread evenly over those that are kept. -/
theorem slotX_add_room {n : Nat} (hslots : 1 ≤ g.slots) (hn : 1 ≤ n) (slot : Nat) :
    g.slotX slot + slot * ((g.slots - n) * g.slotWidth / n) = (g.withSlots n).slotX slot := by
  have hs₀ : (g.slots : Rat) ≠ 0 := Nat.cast_ne_zero.2 (by omega)
  have hn₀ : (n : Rat) ≠ 0 := Nat.cast_ne_zero.2 (by omega)
  change g.x + (slot : Rat) * (g.length / g.slots) +
    slot * ((g.slots - n) * (g.length / g.slots) / n) = g.x + (slot : Rat) * (g.length / n)
  field_simp
  ring

end Grid

/-! ## Glyphs -/

namespace Glyph

/-- A glyph that is put on another grid keeps nothing of the first. -/
theorem setOn_setOn {g g' : Grid Rat} (x : Glyph Rat) : (x.setOn g).setOn g' = x.setOn g' := by
  cases x with
  | timeSignature t =>
    obtain ⟨_, meter, _⟩ := t
    cases meter <;> rfl
  | slur s =>
    obtain ⟨_, _, _, _, _, _, orientation⟩ := g
    obtain ⟨_, _, _, _, _, _, orientation'⟩ := g'
    cases orientation <;> cases orientation' <;> rfl
  | _ => rfl

/-- Padding that moves every slot to where another grid has it, and keeps the right end, puts a
glyph on that grid. -/
theorem pad_setOn {g : Grid Rat} {n : Nat} {room : Rat}
    (hroom : ∀ slot : Nat, g.slotX slot + slot * room = (g.withSlots n).slotX slot)
    (hend : g.slotX g.slots = (g.withSlots n).slotX n) (x : Glyph Rat) :
    (x.setOn g).pad room = x.setOn (g.withSlots n) := by
  cases x with
  | tick t | semicircle t =>
    simp only [setOn, pad, Tick.setOn, Semicircle.setOn, ← hroom]
    congr 2
    exact add_right_comm _ _ _
  | barline b =>
    obtain ⟨kind, _⟩ := b
    cases kind with
    | final => simp only [setOn, pad, Barline.setOn, hend]; rfl
    | _ => simp only [setOn, pad, Barline.setOn, ← hroom]; rfl
  | timeSignature t =>
    obtain ⟨slot, meter, _⟩ := t
    cases meter <;> simp only [setOn, pad, TimeSignature.setOn, ← hroom] <;> rfl
  | slur s =>
    obtain ⟨_, _, _, _, _, _, orientation⟩ := g
    cases orientation <;> simp only [setOn, pad, Slur.setOn, ← hroom] <;> rfl
  | _ =>
    simp only [setOn, pad, Note.setOn, Barberpole.setOn, SectionSign.setOn, Alfabeto.setOn,
      Strum.setOn, ← hroom]
    rfl

/-- The left end of a glyph; of a slur, the point where it begins. -/
def left : Glyph Rat → Rat
  | note n => n.x
  | tick t => t.x
  | barline b => b.x
  | barberpole b => b.x
  | timeSignature t => t.x
  | semicircle s => s.x
  | slur s => s.x₁
  | sectionSign s => s.x
  | alfabeto a => a.x
  | strum s => s.x

theorem pad_of_final {room : Rat} {x : Glyph Rat} {slot : Nat} {label : Option String}
    (h : x.mark = .barline .final slot label) : x.pad room = x := by
  cases x with
  | barline b =>
    obtain ⟨kind, _⟩ := b
    cases h
    rfl
  | _ => cases h

/-- How far a glyph stands from the beginning of its slot: rhythm signs and semicircles by their
radius, which may differ from one to the next, all others not at all. A slur stands in two slots
and the final barline in none. -/
def inset? : Glyph Rat → Option Rat
  | tick t => some (2 * t.bodyRadius)
  | semicircle s => some (s.radius / 2)
  | barline b => if b.kind = .final then none else some 0
  | slur _ => none
  | _ => some 0

theorem left_setOn {g : Grid Rat} {x : Glyph Rat} {d : Rat} (h : x.inset? = some d) :
    (x.setOn g).left = g.slotX x.mark.slot + d := by
  cases x with
  | tick t => cases h; norm_num [setOn, left, Tick.setOn, mark, Mark.slot]
  | semicircle s => cases h; norm_num [setOn, left, Semicircle.setOn, mark, Mark.slot]
  | barline b =>
    obtain ⟨kind, _⟩ := b
    cases kind with
    | final => cases h
    | _ => cases h; exact (add_zero _).symm
  | timeSignature t =>
    obtain ⟨_, meter, _⟩ := t
    cases h
    cases meter <;> exact (add_zero _).symm
  | slur _ => cases h
  | _ => cases h; exact (add_zero _).symm

/-- Glyphs that stand equally far from the beginning of their slots, as all of a kind and of a
radius do, stand in the order of their slots. -/
def InOrder (xs : List (Glyph Rat)) : Prop :=
  ∀ x ∈ xs, ∀ y ∈ xs, ∀ d : Rat, x.inset? = some d → y.inset? = some d →
    x.mark.slot < y.mark.slot → x.left < y.left

/-- Glyphs that stand where a grid puts them are in order. -/
theorem inOrder_of_setOn {g : Grid Rat} (hslots : 1 ≤ g.slots) (hlength : 0 < g.length)
    {xs : List (Glyph Rat)} (hxs : ∀ x ∈ xs, x.setOn g = x) : InOrder xs := by
  intro x hx y hy d hxd hyd h
  have hlt : g.slotX x.mark.slot < g.slotX y.mark.slot := g.slotX_lt_slotX hslots hlength h
  rw [← hxs x hx, ← hxs y hy, left_setOn hxd, left_setOn hyd]
  exact add_lt_add_left hlt d

end Glyph

/-! ## Staves -/

/-- What becomes of a glyph when it is moved from one grid to another: it is put where it would have
been written there. A final barline stays where it is. -/
structure Glyph.MovesTo (g g' : Grid Rat) (x y : Glyph Rat) : Prop where
  placed : ∃ (l : Layout Rat) (m : Mark), x = m.place g l ∧ y = m.place g' l
  final : ∀ slot label, x.mark = .barline .final slot label → y = x

namespace Stave

/-- The second stave is the first one, written on a grid whose slots end with the last slot that was
written. -/
structure StretchesTo (v w : Stave Rat) : Prop where
  rest : w = { v with glyphs := w.glyphs, padding := w.padding }
  glyphs : List.Forall₂ (Glyph.MovesTo v.toGrid (v.toGrid.withSlots (v.cursor - 1)))
    v.glyphs w.glyphs
  padding : w.padding.isSome = true
  slots : ∀ slot : Nat,
    padded w.padding slot (v.slotX slot) = v.x + slot * (v.length / ((v.cursor - 1 : Nat) : Rat))
  first : padded w.padding 0 (v.slotX 0) = v.slotX 0
  last : padded w.padding (v.cursor - 1) (v.slotX (v.cursor - 1)) = v.x + v.length
  ordered : Glyph.InOrder v.glyphs ∧ Glyph.InOrder w.glyphs

/-- Whether a stave is justified is a question of counts. -/
theorem slack?_eq {v : Stave Rat} (hpadding : v.padding = none) :
    v.slack? =
      if 1 < v.cursor ∧ 4 * ((v.slots : Int) - v.cursor + 1) < v.slots then
        some (((v.slots : Rat) - (v.cursor - 1 : Nat)) * v.slotWidth / (v.cursor - 1 : Nat))
      else none := by
  by_cases hcursor : 1 < v.cursor
  · have hspare : (v.slots : Rat) - v.cursor + 1.0 = v.slots - (v.cursor - 1 : Nat) := by
      rw [Nat.cast_sub (Nat.le_of_lt hcursor)]
      norm_num
      ring
    have hnear : (v.slots : Rat) / 4.0 ≤ (v.slots : Rat) - v.cursor + 1.0 ↔
        ¬ 4 * ((v.slots : Int) - v.cursor + 1) < v.slots := by
      rw [not_lt, ← Int.cast_le (R := Rat)]
      push_cast
      norm_num
      constructor <;> intro h <;> linarith
    have hcount : ¬ (v.padding.isSome || decide (v.cursor ≤ 1)) = true := by
      simp [hpadding, hcursor]
    unfold slack?
    rw [if_neg hcount]
    change (if (v.slots : Rat) / 4.0 ≤ (v.slots : Rat) - v.cursor + 1.0 then none else
      some (((v.slots : Rat) - v.cursor + 1.0) * v.slotWidth / (v.cursor - 1 : Nat))) = _
    rw [hspare] at hnear ⊢
    by_cases h : 4 * ((v.slots : Int) - v.cursor + 1) < v.slots
    · rw [if_neg (fun hle => hnear.1 hle h), if_pos ⟨hcursor, h⟩]
    · rw [if_pos (hnear.2 h), if_neg (fun hand => h hand.2)]
  · have hcount : (v.padding.isSome || decide (v.cursor ≤ 1)) = true := by
      simpa using Or.inr hcursor
    unfold slack?
    rw [if_pos hcount, if_neg (fun hand => hcursor hand.1)]

/-- A stave is changed if and only if it is given room. -/
theorem justify_ne_iff {v : Stave Rat} (hpadding : v.padding = none) :
    v.justify ≠ v ↔ 1 < v.cursor ∧ 4 * ((v.slots : Int) - v.cursor + 1) < v.slots := by
  have hslack := slack?_eq hpadding
  unfold justify
  split_ifs at hslack with h
  · rw [hslack]
    refine iff_of_true (fun e => ?_) h
    have hnone := congrArg Stave.padding e
    rw [hpadding] at hnone
    cases hnone
  · rw [hslack]
    exact iff_of_false (fun hne => hne rfl) h

/-- Every glyph of the stave has been placed on its grid. -/
def IsPlaced (v : Stave Rat) : Prop :=
  ∀ x ∈ v.glyphs, ∃ (l : Layout Rat) (m : Mark), x = m.place v.toGrid l

theorem zero_lt_length {v : Stave Rat} (hv : v.WellFormed) : 0 < v.length := by
  have h : (0.0 : Rat) < v.length := hv.length
  norm_num at h
  exact h

/-- A stave that is given room is written again on the other grid. -/
theorem stretchesTo_justify {v : Stave Rat} (hv : v.WellFormed) (hplaced : v.IsPlaced)
    (hpadding : v.padding = none)
    (h : 1 < v.cursor ∧ 4 * ((v.slots : Int) - v.cursor + 1) < v.slots) :
    v.StretchesTo v.justify := by
  have hn : 1 ≤ v.cursor - 1 := by omega
  have hslack := slack?_eq hpadding
  rw [if_pos h] at hslack
  generalize hroom : ((v.slots : Rat) - (v.cursor - 1 : Nat)) * v.slotWidth / (v.cursor - 1 : Nat) =
    room at hslack
  have hjustify : v.justify =
      { v with glyphs := v.glyphs.map (Glyph.pad room), padding := some room } := by
    unfold justify
    rw [hslack]
  have hlength : 0 < v.length := zero_lt_length hv
  have hslots (slot : Nat) : v.slotX slot + slot * room =
      (v.toGrid.withSlots (v.cursor - 1)).slotX slot := by
    rw [← hroom]
    exact v.slotX_add_room hv.slots hn slot
  have hright : (v.toGrid.withSlots (v.cursor - 1)).slotX (v.cursor - 1) = v.x + v.length :=
    Grid.slotX_slots hn
  have hpad : ∀ x ∈ v.glyphs, x.pad room = x.setOn (v.toGrid.withSlots (v.cursor - 1)) := by
    intro x hx
    obtain ⟨l, m, rfl⟩ := hplaced x hx
    rw [Mark.place, Glyph.setOn_setOn]
    exact Glyph.pad_setOn hslots ((Grid.slotX_slots hv.slots).trans hright.symm) _
  rw [hjustify]
  refine ⟨rfl, ?_, rfl, hslots, ?_, ?_, ?_, ?_⟩
  · refine List.forall₂_map_right_iff.2 (List.forall₂_same.2 fun x hx => ⟨?_, ?_⟩)
    · obtain ⟨l, m, e⟩ := hplaced x hx
      refine ⟨l, m, e, ?_⟩
      rw [hpad x hx, e, Mark.place, Glyph.setOn_setOn]
      rfl
    · exact fun slot label hmark => Glyph.pad_of_final hmark
  · have hleft : (v.toGrid.withSlots (v.cursor - 1)).slotX 0 = v.x := Grid.slotX_zero
    exact (hslots 0).trans (hleft.trans Grid.slotX_zero.symm)
  · exact (hslots (v.cursor - 1)).trans hright
  · refine Glyph.inOrder_of_setOn (g := v.toGrid) hv.slots hlength fun x hx => ?_
    obtain ⟨l, m, rfl⟩ := hplaced x hx
    exact Glyph.setOn_setOn _
  · refine Glyph.inOrder_of_setOn (g := v.toGrid.withSlots (v.cursor - 1)) hn hlength fun x hx => ?_
    obtain ⟨y, hy, rfl⟩ := List.mem_map.1 hx
    rw [hpad y hy]
    exact Glyph.setOn_setOn _

end Stave

/-- The glyphs of every stave have been placed on its grid, each in the style of some layout. -/
theorem Page.invariant_isPlaced : Page.Invariant fun p : Page Rat => ∀ v ∈ p.staves, v.IsPlaced :=
  .ofStaves (fun _ _ _ _ _ x hx => by cases hx)
    (Stave.forall_glyphs_of_act
      (P := fun g x => ∃ (l : Layout Rat) (m : Mark), x = m.place g l)
      fun _ l m => ⟨l, m, rfl⟩)

namespace Score

/-- What justifying does to the staves of a source, in exact arithmetic: to those that are more than
three quarters full, and no others, it gives the room that leads to the grid whose slots end with
the last one written, and every glyph stands where it would have been written on that grid. -/
theorem justify_of_stepAll {source : String} {s : Score Rat}
    (h : (empty : Score Rat).stepAll (Line.tokenize source) = .ok s) :
    ∀ p ∈ s.document.pages, ∀ v ∈ p.staves,
      v.padding = none ∧ 1 ≤ v.slots ∧ 0 < v.length ∧
      (v.justify ≠ v ↔ 1 < v.cursor ∧ 4 * ((v.slots : Int) - v.cursor + 1) < v.slots) ∧
      (v.justify ≠ v → v.StretchesTo v.justify) := by
  intro p hp v hv
  have hnil {Q : Page Rat → Prop} : ∀ p ∈ (empty : Score Rat).document.pages, Q p :=
    fun p hp => by cases hp
  have hpadding := Page.invariant_unpadded.stepAll h hnil p hp v hv
  have hplaced := Page.invariant_isPlaced.stepAll h hnil p hp v hv
  have hwell := ((Page.invariant_wellFormed.stepAll h
    (everywhere_empty Layout.measured_initial_rat)).pages p hp).2 v hv
  have hiff := Stave.justify_ne_iff hpadding
  exact ⟨hpadding, hwell.slots, Stave.zero_lt_length hwell, hiff,
    fun hne => Stave.stretchesTo_justify hwell hplaced hpadding (hiff.1 hne)⟩

/-- An overfilled stave, a full one and one with a single note. -/
theorem justify_overfilled :
    let source := "SLOTS 4\nP-1\nS-\nC 1-[\n1-0\n2-^\n1-0\n1-]\n1-0\nEB-\n" ++
      "SLOTS 5\nS-\nQ 1-0\n2-0\n1-0\n2-0\n1-0\nS-\n1-0"
    ∃ s : Score Rat, (empty : Score Rat).stepAll (Line.tokenize source) = .ok s ∧
      (s.document.pages.flatMap Page.staves).map (fun v => (v.cursor, v.justify.padding)) =
        [(6, some (-451 / 20)), (5, some (451 / 20)), (1, none)] ∧
      ∀ p ∈ s.document.pages, ∀ v ∈ p.staves,
        v.padding = none ∧ 1 ≤ v.slots ∧ 0 < v.length ∧
        (v.justify ≠ v ↔ 1 < v.cursor ∧ 4 * ((v.slots : Int) - v.cursor + 1) < v.slots) ∧
        (v.justify ≠ v → v.StretchesTo v.justify) := by
  intro source
  have h : ((empty : Score Rat).stepAll (Line.tokenize source)).toOption.map
      (fun s => (s.document.pages.flatMap Page.staves).map fun v => (v.cursor, v.justify.padding)) =
      some [(6, some (-451 / 20)), (5, some (451 / 20)), (1, none)] := by
    decide +kernel
  obtain ⟨s, hs, hv⟩ := exists_of_toOption_map h
  exact ⟨s, hs, hv, justify_of_stepAll hs⟩

end Score

end Tablature
