import Tablature.Document

/-!
# What is drawn

Glyph by glyph, stave by stave: every command that draws a page is a stroke, a change
of colour, or a text in a face that the page holds.

* `Glyph.faces`, `Stave.faces`, `Page.faces`: the faces that texts are written in;
* `Page.content`: what stands on a page, apart from what ends the page before it;
* `Command.Within`, `Page.within_of_mem_content`: all of it is drawn with strokes and
  those faces.
-/

namespace Tablature

variable {α : Type}

/-! ## Commands -/

/-- Whether the command draws a line or changes the colour. -/
def Command.isStroke : Command α → Bool
  | .line .. | .arc .. | .curve .. | .colour .. => true
  | .text .. | .pageBreak => false

/-- Whether the command draws a line. -/
def Command.isShape : Command α → Bool
  | .line .. | .arc .. | .curve .. => true
  | .text .. | .colour .. | .pageBreak => false

theorem Command.isStroke_of_isShape {c : Command α} (h : c.isShape = true) : c.isStroke = true := by
  cases c with
  | line | arc | curve => rfl
  | _ => cases h

/-- The face of a text. -/
def Command.face? : Command α → Option String
  | .text _ _ _ _ face _ => some face
  | _ => none

/-- A command that draws a line, changes the colour, or writes a text in one of the faces. -/
def Command.Within (faces : List String) (c : Command α) : Prop :=
  c.isStroke = true ∨ ∃ face ∈ faces, c.face? = some face

namespace Command.Within

variable {faces faces' : List String} {c : Command α}

theorem mono (hfaces : ∀ f ∈ faces, f ∈ faces') (h : c.Within faces) : c.Within faces' := by
  obtain h | ⟨f, hf, h⟩ := h
  · exact .inl h
  · exact .inr ⟨f, hfaces f hf, h⟩

theorem mem_of_face? (h : c.Within faces) {f : String} (hf : c.face? = some f) : f ∈ faces := by
  obtain h | ⟨g, hg, h⟩ := h
  · cases c with
    | text => cases h
    | _ => cases hf
  · rw [h] at hf
    cases hf
    exact hg

end Command.Within

theorem mem_option_elim {β γ : Type} {o : Option β} {f : β → List γ} {c : γ} :
    c ∈ o.elim [] f ↔ ∃ b, o = some b ∧ c ∈ f b := by
  cases o <;> simp

/-! ## Faces -/

/-- The faces that a glyph writes in. Figures and signs without a style have none of their
own. -/
def Glyph.faces : Glyph α → List String
  | note n => [n.face]
  | barline b => [b.labelFace]
  | alfabeto a => [a.face]
  | _ => []

def Stave.faces (v : Stave α) : List String :=
  v.labels.elim [] (fun labels => [labels.style.face]) ++ v.glyphs.flatMap Glyph.faces

def Page.faces (p : Page α) : List String :=
  p.title.elim [] (fun h => [h.style.face]) ++ p.composer.elim [] (fun h => [h.style.face]) ++
    p.staves.flatMap Stave.faces

def Document.faces (d : Document α) : List String := d.pages.flatMap Page.faces

theorem Stave.mem_faces_iff {v : Stave α} {f : String} :
    f ∈ v.faces ↔ (∃ labels, v.labels = some labels ∧ f = labels.style.face) ∨
      ∃ g ∈ v.glyphs, f ∈ g.faces := by
  simp only [faces, List.mem_append, mem_option_elim, List.mem_singleton, List.mem_flatMap]

theorem Page.mem_faces_iff {p : Page α} {f : String} :
    f ∈ p.faces ↔ (∃ h, p.title = some h ∧ f = h.style.face) ∨
      (∃ h, p.composer = some h ∧ f = h.style.face) ∨ ∃ v ∈ p.staves, f ∈ v.faces := by
  simp only [faces, List.mem_append, mem_option_elim, List.mem_singleton, List.mem_flatMap,
    or_assoc]

variable [Scalar α]

/-! ## Glyphs -/

section

open Drawing

theorem isShape_of_mem_triangle {x y width height thickness : α} {c : Command α}
    (h : c ∈ triangle x y width height thickness) : c.isShape = true := by
  simp only [triangle, List.mem_cons, List.not_mem_nil, or_false] at h
  rcases h with rfl | rfl | rfl <;> rfl

theorem isShape_of_mem_crossedRectangle {x y width height thickness : α} {c : Command α}
    (h : c ∈ crossedRectangle x y width height thickness) : c.isShape = true := by
  simp only [crossedRectangle, rectangle, List.cons_append, List.nil_append, List.mem_cons,
    List.not_mem_nil, or_false] at h
  rcases h with rfl | rfl | rfl | rfl | rfl | rfl <;> rfl

theorem Tick.isShape_of_mem_draw {t : Tick α} {c : Command α} (h : c ∈ t.draw) :
    c.isShape = true := by
  simp only [draw, List.mem_append, List.mem_singleton] at h
  obtain ((h | h) | rfl) | h := h
  · split at h
    · rw [List.mem_singleton.1 h]
      rfl
    · cases h
  · obtain ⟨n, -, rfl⟩ := List.mem_map.1 h
    rfl
  · rfl
  · split at h
    · rw [List.mem_singleton.1 h]
      rfl
    · cases h

theorem Barline.isShape_of_mem_strokes {b : Barline α} {c : Command α} (h : c ∈ b.strokes) :
    c.isShape = true := by
  have hstrokes : ∀ c ∈ b.strokes, c.isShape = true := by
    unfold strokes
    cases b.kind <;> simp [longStroke, shortStroke, verticalLine, Command.isShape]
  exact hstrokes c h

theorem Barberpole.isShape_of_mem_draw {b : Barberpole α} {c : Command α} (h : c ∈ b.draw) :
    c.isShape = true := by
  simp only [draw, List.mem_append, List.mem_cons, List.not_mem_nil, or_false] at h
  obtain ((h | h) | rfl | rfl) | h := h
  · exact isShape_of_mem_triangle h
  · exact isShape_of_mem_triangle h
  · rfl
  · rfl
  · obtain ⟨offset, -, h⟩ := List.mem_flatMap.1 h
    exact isShape_of_mem_crossedRectangle h

/-- The strokes of a strum are lines, whatever its pattern. -/
theorem Strum.exists_of_mem_strokes {s : Strum α} {offset : α} {cs : List Char} {c : Command α}
    (h : c ∈ s.strokes offset cs) : ∃ x₁ y₁ x₂ y₂ width, c = .line x₁ y₁ x₂ y₂ width := by
  induction cs generalizing offset with
  | nil => cases h
  | cons d cs ih =>
    rw [strokes] at h
    obtain h | h := List.mem_append.1 h
    · unfold stroke? at h
      split at h
      · rw [List.mem_singleton.1 h]
        exact ⟨_, _, _, _, _, rfl⟩
      · split at h
        · rw [List.mem_singleton.1 h]
          exact ⟨_, _, _, _, _, rfl⟩
        · cases h
    · exact ih h

theorem Strum.isStroke_of_mem_draw {s : Strum α} {c : Command α} (h : c ∈ s.draw) :
    c.isStroke = true := by
  simp only [draw, List.cons_append, List.mem_cons, List.mem_append, List.not_mem_nil,
    or_false] at h
  obtain rfl | h | rfl := h
  · rfl
  · obtain ⟨_, _, _, _, _, rfl⟩ := exists_of_mem_strokes h
    rfl
  · rfl

theorem Barline.within_of_mem_draw {b : Barline α} {c : Command α} (h : c ∈ b.draw) :
    c.Within [b.labelFace] := by
  obtain h | h := List.mem_append.1 h
  · exact .inl (Command.isStroke_of_isShape (isShape_of_mem_strokes h))
  · obtain ⟨label, -, h⟩ := mem_option_elim.1 h
    simp only [drawLabel, List.mem_cons, List.not_mem_nil, or_false] at h
    rcases h with rfl | rfl | rfl
    · exact .inl rfl
    · exact .inr ⟨_, List.mem_singleton_self _, rfl⟩
    · exact .inl rfl

theorem TimeSignature.within_of_mem_draw {t : TimeSignature α} {c : Command α} (h : c ∈ t.draw) :
    c.Within [signFace] := by
  have hfigure (text : String) (y : α) : (t.figure text y).Within [signFace] :=
    .inr ⟨_, List.mem_singleton_self _, rfl⟩
  unfold draw at h
  cases hm : t.meter with
  | single _ | common =>
    simp only [hm, List.mem_singleton] at h
    rw [h]
    exact hfigure _ _
  | fraction _ _ =>
    simp only [hm, List.mem_cons, List.not_mem_nil, or_false] at h
    rcases h with rfl | rfl
    · exact hfigure _ _
    · exact hfigure _ _
  | cut =>
    simp only [hm, List.mem_cons, List.not_mem_nil, or_false] at h
    rcases h with rfl | rfl
    · exact hfigure _ _
    · exact .inl rfl

theorem Glyph.within_of_mem_draw {g : Glyph α} {c : Command α} (h : c ∈ g.draw) :
    c.Within (signFace :: g.faces) := by
  cases g with
  | tick t => exact .inl (Command.isStroke_of_isShape (Tick.isShape_of_mem_draw h))
  | barberpole b => exact .inl (Command.isStroke_of_isShape (Barberpole.isShape_of_mem_draw h))
  | strum s => exact .inl (Strum.isStroke_of_mem_draw h)
  | semicircle s =>
    obtain ⟨side, _⟩ := s
    cases side <;>
    · rw [List.mem_singleton.1 h]
      exact .inl rfl
  | slur _ =>
    rw [List.mem_singleton.1 h]
    exact .inl rfl
  | barline b => exact (Barline.within_of_mem_draw h).mono fun f => List.mem_cons_of_mem _
  | timeSignature t =>
    refine (TimeSignature.within_of_mem_draw h).mono fun f hf => ?_
    rw [List.mem_singleton.1 hf]
    exact List.mem_cons_self
  | note _ | alfabeto _ | sectionSign _ =>
    rw [List.mem_singleton.1 h]
    exact .inr ⟨_, by simp [faces], rfl⟩

end

/-! ## Staves and pages -/

/-- What stands on a stave: its tuning if it is shown, one level line for each course, and the
glyphs in the order in which they were written. -/
def Stave.content (v : Stave α) : List (Command α) :=
  v.labels.elim [] v.drawLabels ++
    (List.range v.courses).map (fun i =>
      .line v.x (v.courseY (i + 1)) (v.x + v.length) (v.courseY (i + 1)) 0.5) ++
    v.glyphs.flatMap Glyph.draw

/-- What stands on a page: the title and the composer if it has them, and its staves in order. -/
def Page.content (p : Page α) : List (Command α) :=
  (p.title.elim [] fun h => [.text h.text (p.width / 2.0) h.y h.style.size h.style.face .centre]) ++
    (p.composer.elim [] fun h =>
      [.text h.text (p.width - p.leftMargin) h.y h.style.size h.style.face .right]) ++
    p.staves.flatMap Stave.content

/-- A page that is not the first begins by breaking off the page before it. -/
theorem Page.draw_eq (p : Page α) :
    p.draw = (if p.first then [] else [.pageBreak]) ++ p.content := by
  simp only [Page.draw, Page.content, List.append_assoc]
  rfl

theorem Stave.within_of_mem_content {v : Stave α} {c : Command α} (h : c ∈ v.content) :
    c.Within (signFace :: v.faces) := by
  simp only [content, List.mem_append] at h
  obtain (h | h) | h := h
  · obtain ⟨labels, hlabels, h⟩ := mem_option_elim.1 h
    simp only [drawLabels, List.mem_flatMap, List.mem_map] at h
    obtain ⟨_, -, _, -, rfl⟩ := h
    have hface : labels.style.face ∈ v.faces := mem_faces_iff.2 (.inl ⟨labels, hlabels, rfl⟩)
    exact .inr ⟨_, List.mem_cons_of_mem _ hface, rfl⟩
  · obtain ⟨i, -, rfl⟩ := List.mem_map.1 h
    exact .inl rfl
  · obtain ⟨g, hg, h⟩ := List.mem_flatMap.1 h
    refine (Glyph.within_of_mem_draw h).mono (List.cons_subset_cons _ fun f hf => ?_)
    exact mem_faces_iff.2 (.inr ⟨g, hg, hf⟩)

/-- A page is drawn with strokes and texts in its own faces, and that of its signs. -/
theorem Page.within_of_mem_content {p : Page α} {c : Command α} (h : c ∈ p.content) :
    c.Within (signFace :: p.faces) := by
  simp only [content, List.mem_append] at h
  obtain (h | h) | h := h
  · obtain ⟨title, htitle, h⟩ := mem_option_elim.1 h
    rw [List.mem_singleton.1 h]
    have hface : title.style.face ∈ p.faces := mem_faces_iff.2 (.inl ⟨title, htitle, rfl⟩)
    exact .inr ⟨_, List.mem_cons_of_mem _ hface, rfl⟩
  · obtain ⟨composer, hcomposer, h⟩ := mem_option_elim.1 h
    rw [List.mem_singleton.1 h]
    have hface : composer.style.face ∈ p.faces :=
      mem_faces_iff.2 (.inr (.inl ⟨composer, hcomposer, rfl⟩))
    exact .inr ⟨_, List.mem_cons_of_mem _ hface, rfl⟩
  · obtain ⟨v, hv, h⟩ := List.mem_flatMap.1 h
    refine (Stave.within_of_mem_content h).mono (List.cons_subset_cons _ fun f hf => ?_)
    exact mem_faces_iff.2 (.inr (.inr ⟨v, hv, hf⟩))

/-- The faces of a drawing are those of its document, and that of the signs. -/
theorem Document.mem_faces_of_mem_draw {d : Document α} {c : Command α} (h : c ∈ d.draw)
    {f : String} (hf : c.face? = some f) : f = signFace ∨ f ∈ d.faces := by
  obtain ⟨p, hp, h⟩ := List.mem_flatMap.1 h
  rw [Page.draw_eq] at h
  obtain h | h := List.mem_append.1 h
  · split at h
    · cases h
    · rw [List.mem_singleton.1 h] at hf
      cases hf
  · have hmem := (Page.within_of_mem_content h).mem_of_face? hf
    refine (List.mem_cons.1 hmem).imp_right fun hmem => ?_
    exact List.mem_flatMap.2 ⟨p, hp, hmem⟩

end Tablature
