import Tablature.Proofs.Stretch

/-!
# Glyphs moved to the right

A glyph is drawn from its place: every point of its drawing lies at a distance from the `x`
of the glyph that does not depend on that `x`. So, in exact arithmetic, a glyph that is moved
is drawn as before, moved as far. Padding moves most glyphs in this way, by the room that is
given to the slots before them; it leaves the final barline where it is, and bends a slur
anew between its ends.

* `Glyph.shift`, `Glyph.draw_shift`: a glyph moved to the right, and its drawing;
* `Glyph.pad_eq_shift`: the glyphs that padding moves as a whole;
* `Slur.MovedBy`: the ends of a slur that is padded, and the point between them;
* `Glyph.pad_pad`: padding twice;
* `Glyph.draw_pad`: what padding does to the drawing of a glyph.
-/

namespace Tablature

open Drawing

/-! ## Shapes -/

section

variable (x y width height thickness d : Rat)

theorem map_shift_triangle :
    (triangle x y width height thickness).map (.shift d) =
      triangle (x + d) y width height thickness := by
  simp only [triangle, horizontalLine, List.map_cons, List.map_nil, Command.shift,
    add_right_comm x _ d]

theorem map_shift_crossedRectangle :
    (crossedRectangle x y width height thickness).map (.shift d) =
      crossedRectangle (x + d) y width height thickness := by
  simp only [crossedRectangle, rectangle, horizontalLine, verticalLine, List.map_append,
    List.map_cons, List.map_nil, Command.shift, add_right_comm x width d]

end

/-! ## Glyphs -/

/-- The glyph moved to the right as a whole. -/
def Glyph.shift (d : Rat) : Glyph Rat → Glyph Rat
  | note n => note { n with x := n.x + d }
  | tick t => tick { t with x := t.x + d }
  | barline b => barline { b with x := b.x + d }
  | barberpole b => barberpole { b with x := b.x + d }
  | timeSignature t => timeSignature { t with x := t.x + d }
  | semicircle s => semicircle { s with x := s.x + d }
  | slur s => slur { s with x₁ := s.x₁ + d, x₂ := s.x₂ + d, x₃ := s.x₃ + d }
  | sectionSign s => sectionSign { s with x := s.x + d }
  | alfabeto a => alfabeto { a with x := a.x + d }
  | strum s => strum { s with x := s.x + d }

section

variable (d : Rat)

theorem Tick.draw_shift (t : Tick Rat) :
    ({ t with x := t.x + d } : Tick Rat).draw = t.draw.map (.shift d) := by
  obtain ⟨slot, ⟨duration, dotted⟩, x, y, radius⟩ := t
  have htails :
      (List.range duration.tails).map (Tick.mk slot ⟨duration, dotted⟩ (x + d) y radius).tail =
        ((List.range duration.tails).map (Tick.mk slot ⟨duration, dotted⟩ x y radius).tail).map
          (.shift d) := by
    rw [List.map_map]
    refine List.map_congr_left fun n _ => ?_
    simp only [tail, Function.comp_apply, Command.shift, add_right_comm x _ d]
  simp only [draw, List.map_append, ← htails]
  cases duration.hasStem <;> cases dotted <;>
    simp [verticalLine, circle, Command.shift, sub_add_eq_add_sub, add_right_comm x _ d]

theorem Barline.draw_shift (b : Barline Rat) :
    ({ b with x := b.x + d } : Barline Rat).draw = b.draw.map (.shift d) := by
  obtain ⟨kind, slot, label, x, _⟩ := b
  cases kind <;> cases label <;>
    simp [draw, strokes, drawLabel, longStroke, shortStroke, verticalLine, Command.shift, black,
      sub_add_eq_add_sub, add_right_comm x _ d]

theorem Barberpole.draw_shift (b : Barberpole Rat) :
    ({ b with x := b.x + d } : Barberpole Rat).draw = b.draw.map (.shift d) := by
  have hboxes : ({ b with x := b.x + d } : Barberpole Rat).boxes = b.boxes := rfl
  simp only [draw, hboxes, List.map_append, List.map_cons, List.map_nil, List.map_flatMap,
    map_shift_triangle, map_shift_crossedRectangle, circle, Command.shift,
    add_right_comm b.x _ d]

theorem TimeSignature.draw_shift (t : TimeSignature Rat) :
    ({ t with x := t.x + d } : TimeSignature Rat).draw = t.draw.map (.shift d) := by
  obtain ⟨slot, meter, x, _⟩ := t
  cases meter <;> simp [draw, figure, verticalLine, Command.shift, add_right_comm x _ d]

/-- The strokes of a strum are moved, however far from the slot they are. -/
theorem Strum.strokes_shift (s : Strum Rat) (offset : Rat) (cs : List Char) :
    ({ s with x := s.x + d } : Strum Rat).strokes offset cs =
      (s.strokes offset cs).map (.shift d) := by
  have hstroke (offset : Rat) (c : Char) : ({ s with x := s.x + d } : Strum Rat).stroke? offset c =
      (s.stroke? offset c).map (.shift d) := by
    unfold stroke?
    split
    · simp [verticalLine, Command.shift, add_right_comm s.x _ d]
    · split <;> simp [verticalLine, Command.shift, add_right_comm s.x _ d]
  induction cs generalizing offset with
  | nil => rfl
  | cons c cs ih =>
    simp only [strokes, hstroke, ih, List.map_append, Option.toList_map]

/-- A glyph that is moved is drawn as before, moved as far. -/
theorem Glyph.draw_shift (x : Glyph Rat) : (x.shift d).draw = x.draw.map (.shift d) := by
  cases x with
  | tick t => exact t.draw_shift d
  | barline b => exact b.draw_shift d
  | barberpole b => exact b.draw_shift d
  | timeSignature t => exact t.draw_shift d
  | semicircle s =>
    obtain ⟨side, _⟩ := s
    cases side <;> rfl
  | strum s =>
    simp only [shift, draw, Strum.draw, Strum.strokes_shift, List.map_append, List.map_cons,
      List.map_nil]
    rfl
  | _ => rfl

end

/-! ## Padding -/

namespace Glyph

/-- Padding moves a glyph by the room that is given to the slots before it, unless it ends the stave
or stands in two slots. -/
theorem pad_eq_shift {x : Glyph Rat} (hslur : ∀ start stop, x.mark ≠ .slur start stop)
    (hfinal : ∀ slot label, x.mark ≠ .barline .final slot label) (p : Rat) :
    x.pad p = x.shift (x.mark.slot * p) := by
  cases x with
  | barline b =>
    obtain ⟨kind, slot, label, _⟩ := b
    cases kind with
    | final => exact absurd rfl (hfinal slot label)
    | _ => rfl
  | slur s => exact absurd rfl (hslur s.start s.stop)
  | _ => rfl

/-- Padding twice is padding by the sum. -/
theorem pad_pad (x : Glyph Rat) (p q : Rat) : (x.pad p).pad q = x.pad (p + q) := by
  cases x with
  | barline b =>
    obtain ⟨kind, _⟩ := b
    cases kind <;> simp only [pad, mul_add, add_assoc]
  | _ => simp only [pad, mul_add, add_assoc]

end Glyph

/-- The point towards which a slur is bent lies in the middle between its ends. -/
def Slur.IsCentred (s : Slur Rat) : Prop := s.x₂ = (s.x₁ + s.x₃) / 2

theorem Slur.isCentred_setOn (g : Grid Rat) (s : Slur Rat) : (s.setOn g).IsCentred := by
  have htwo : (2.0 : Rat) = 2 := by norm_num
  simp only [IsCentred, setOn]
  cases g.orientation <;> simp only [htwo]

/-- A slur has been padded: each end is moved by the room before its own slot, and the slur bent
towards the middle again. -/
structure Slur.MovedBy (p : Rat) (s t : Slur Rat) : Prop where
  rest : t = { s with x₁ := t.x₁, x₂ := t.x₂, x₃ := t.x₃ }
  start : t.x₁ = s.x₁ + s.start.slot * p
  stop : t.x₃ = s.x₃ + s.stop.slot * p
  centred : t.IsCentred

theorem Slur.exists_movedBy (s : Slur Rat) (p : Rat) :
    ∃ t, (Glyph.slur s).pad p = .slur t ∧ s.MovedBy p t := by
  have htwo : (2.0 : Rat) = 2 := by norm_num
  refine ⟨_, rfl, ⟨rfl, rfl, rfl, ?_⟩⟩
  simp only [IsCentred, htwo]

/-- In exact arithmetic, padding a glyph moves its drawing by the room that is given to the slots
before it: the commands are the same and in the same order, each as far to the right. A final
barline is drawn where it was. A slur is one curve, which keeps its heights, has its ends moved each
by the room before its own slot, and stays bent towards the middle, as it was when it was placed.
And padding twice is padding by the sum. -/
theorem Glyph.draw_pad (x : Glyph Rat) (p q : Rat) :
    ((∀ start stop, x.mark ≠ .slur start stop) →
      (∀ slot label, x.mark ≠ .barline .final slot label) →
      (x.pad p).draw = x.draw.map (.shift (x.mark.slot * p))) ∧
    (∀ slot label, x.mark = .barline .final slot label → (x.pad p).draw = x.draw) ∧
    (∀ s, x = .slur s → ∃ t, s.MovedBy p t ∧
      x.draw = [curve s.x₁ s.y₁ s.x₂ s.y₂ s.x₃ s.y₃] ∧
      (x.pad p).draw = [curve t.x₁ s.y₁ t.x₂ s.y₂ t.x₃ s.y₃]) ∧
    (∀ s g l m, x = .slur s → x = Mark.place g l m → s.IsCentred) ∧
    (x.pad p).pad q = x.pad (p + q) := by
  refine ⟨fun hslur hfinal => ?_, fun slot label h => ?_, ?_, ?_, x.pad_pad p q⟩
  · rw [pad_eq_shift hslur hfinal, draw_shift]
  · rw [pad_of_final h]
  · rintro s rfl
    obtain ⟨t, ht, hmoved⟩ := s.exists_movedBy p
    refine ⟨t, hmoved, rfl, ?_⟩
    rw [ht, hmoved.rest]
    rfl
  · rintro s g l m rfl h
    cases m with
    | slur start stop =>
      cases h
      exact Slur.isCentred_setOn g _
    | _ => cases h

/-- A strum, a labelled double barline, a final barline and a slur on a french stave, padded by four
for each slot and once more by a half. -/
theorem Glyph.draw_pad_on_french_stave :
    let g : Grid Rat :=
      { x := 40, y := 100, length := 500, slots := 10, courses := 5, courseSpacing := 7,
        orientation := .french }
    let strum := Mark.place g .initial (.strum 3 "DU D")
    let double := Mark.place g .initial (.barline .double 5 "II")
    let final := Mark.place g .initial (.barline .final 9 none)
    strum.draw ≠ [] ∧ double.draw ≠ [] ∧
      (strum.pad 4).draw = strum.draw.map (.shift (3 * 4)) ∧
      (double.pad 4).draw = double.draw.map (.shift (5 * 4)) ∧
      (final.pad 4).draw = final.draw ∧
      (∃ s t, Mark.place g .initial (.slur ⟨2, 1⟩ ⟨6, 4⟩) = .slur s ∧ s.IsCentred ∧ s.MovedBy 4 t ∧
        ((Glyph.slur s).pad 4).draw = [curve t.x₁ s.y₁ t.x₂ s.y₂ t.x₃ s.y₃]) ∧
      (strum.pad 4).pad (1 / 2) = strum.pad (4 + 1 / 2) := by
  intro g strum double final
  have hslur : ∃ s, Mark.place g .initial (.slur ⟨2, 1⟩ ⟨6, 4⟩) = .slur s := ⟨_, rfl⟩
  obtain ⟨s, hs⟩ := hslur
  obtain ⟨-, -, hcurve, hcentred, -⟩ := Glyph.draw_pad (.slur s) 4 (1 / 2)
  obtain ⟨t, hmoved, -, ht⟩ := hcurve s rfl
  refine ⟨List.cons_ne_nil _ _, by decide +kernel, ?_, ?_, ?_,
    ⟨s, t, hs, hcentred s g .initial (.slur ⟨2, 1⟩ ⟨6, 4⟩) rfl hs.symm, hmoved, ht⟩, ?_⟩
  · exact (Glyph.draw_pad strum 4 (1 / 2)).1 nofun nofun
  · exact (Glyph.draw_pad double 4 (1 / 2)).1 nofun nofun
  · exact (Glyph.draw_pad final 4 (1 / 2)).2.1 9 none rfl
  · exact (Glyph.draw_pad strum 4 (1 / 2)).2.2.2.2

end Tablature
