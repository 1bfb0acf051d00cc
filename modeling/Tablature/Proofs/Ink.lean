import Tablature.Proofs.Drawing

/-!
# The colour that things are drawn in

A command that changes the colour changes it for everything behind it, on later staves
and pages too. So what a command is drawn in depends on all that stands before it. A
document is taken apart here into what is drawn of it one after the other, each glyph
being one piece: every piece finds black and leaves black, and so the colours are those
that each glyph gives its own commands.

* `Ink.after`, `inked`: the colour in force after some commands, and the colour that
  each command is drawn in;
* `Glyph.ink`: labels of barlines are blue, strums are red, and everything else is black;
* `IsInked`: commands that begin and end in black and are drawn in given colours;
* `Document.pieces`, `draw_eq_flatMap_pieces`: a drawing as the pieces of its document;
* `Document.inked_draw`: the colours of a drawing.
-/

namespace Tablature

variable {α : Type}

/-- A colour, by its parts of red, green and blue. -/
structure Ink (α : Type) where
  r : α
  g : α
  b : α
  deriving DecidableEq, Repr

namespace Command

/-- Whether the command draws something: a line or a text. -/
def isPaint : Command α → Bool
  | line .. | arc .. | curve .. | text .. => true
  | colour .. | pageBreak => false

/-- The colour that the command changes to, if it changes the colour. -/
def ink? : Command α → Option (Ink α)
  | colour red green blue => some ⟨red, green, blue⟩
  | _ => none

theorem ink?_of_isShape {c : Command α} (h : c.isShape = true) : c.ink? = none := by
  cases c with
  | colour => cases h
  | _ => rfl

end Command

/-- The colour in force after some commands. -/
def Ink.after (ink : Ink α) (cs : List (Command α)) : Ink α :=
  cs.foldl (fun ink c => c.ink?.getD ink) ink

/-- The commands that draw something, each with the colour that is in force when its turn comes. -/
def inked (ink : Ink α) : List (Command α) → List (Ink α × Command α)
  | [] => []
  | c :: cs => (if c.isPaint then [(ink, c)] else []) ++ inked (c.ink?.getD ink) cs

theorem Ink.after_append (ink : Ink α) (cs ds : List (Command α)) :
    ink.after (cs ++ ds) = (ink.after cs).after ds :=
  List.foldl_append

theorem inked_append (ink : Ink α) (cs ds : List (Command α)) :
    inked ink (cs ++ ds) = inked ink cs ++ inked (ink.after cs) ds := by
  induction cs generalizing ink with
  | nil => rfl
  | cons c cs ih =>
    rw [List.cons_append, inked, inked, ih, List.append_assoc]
    rfl

section

variable {cs : List (Command α)} (h : ∀ c ∈ cs, c.ink? = none)

include h

/-- Where no command changes the colour, it is the same at the end. -/
theorem Ink.after_eq_self (ink : Ink α) : ink.after cs = ink := by
  induction cs generalizing ink with
  | nil => rfl
  | cons c cs ih =>
    obtain ⟨hc, hcs⟩ := List.forall_mem_cons.1 h
    change (c.ink?.getD ink).after cs = ink
    rw [hc]
    exact ih hcs ink

/-- Where no command changes the colour, all of them are drawn in the same. -/
theorem inked_eq_map (ink : Ink α) :
    inked ink cs = (cs.filter Command.isPaint).map fun c => (ink, c) := by
  induction cs with
  | nil => rfl
  | cons c cs ih =>
    obtain ⟨hc, hcs⟩ := List.forall_mem_cons.1 h
    rw [inked, hc, Option.getD_none, ih hcs]
    cases hpaint : c.isPaint <;> simp [hpaint]

end

variable [Scalar α]

namespace Ink

def black : Ink α := ⟨0.0, 0.0, 0.0⟩

def blue : Ink α := ⟨0.0, 0.0, 1.0⟩

def red : Ink α := ⟨1.0, 0.0, 0.0⟩

end Ink

/-- The colour that a command of the glyph is drawn in: blue for the text of a barline, which is its
label, red for a stroke of a strum, and black for everything else. -/
def Glyph.ink : Glyph α → Command α → Ink α
  | barline _, .text .. => .blue
  | strum _, .line .. => .red
  | _, _ => .black

/-- The commands leave the colour black if they find it so, and `ink` gives the colours that they
are then drawn in. -/
structure IsInked (ink : Command α → Ink α) (cs : List (Command α)) : Prop where
  after : Ink.black.after cs = .black
  inked : inked .black cs = (cs.filter Command.isPaint).map fun c => (ink c, c)

namespace IsInked

variable {ink : Command α → Ink α} {cs ds : List (Command α)}

theorem append (hcs : IsInked ink cs) (hds : IsInked ink ds) : IsInked ink (cs ++ ds) where
  after := by rw [Ink.after_append, hcs.after, hds.after]
  inked := by
    rw [inked_append, hcs.after, hcs.inked, hds.inked, List.filter_append, List.map_append]

/-- Commands that change no colour are drawn in black. -/
theorem of_black (hnone : ∀ c ∈ cs, c.ink? = none)
    (hink : ∀ c ∈ cs, c.isPaint = true → ink c = .black) : IsInked ink cs where
  after := Ink.after_eq_self hnone _
  inked := by
    rw [inked_eq_map hnone]
    refine List.map_congr_left fun c hc => ?_
    obtain ⟨hc, hpaint⟩ := List.mem_filter.1 hc
    rw [hink c hc hpaint]

/-- Commands between a change of the colour and the change back to black are drawn in it. -/
theorem of_colour (cs : List (Command α)) {red green blue : α} (hnone : ∀ c ∈ cs, c.ink? = none)
    (hink : ∀ c ∈ cs, c.isPaint = true → ink c = ⟨red, green, blue⟩) :
    IsInked ink (.colour red green blue :: cs ++ [Drawing.black]) where
  after := by
    rw [Ink.after_append]
    rfl
  inked := by
    have hcs : Tablature.inked ⟨red, green, blue⟩ cs =
        (cs.filter Command.isPaint).map fun c => (ink c, c) := by
      rw [inked_eq_map hnone]
      refine List.map_congr_left fun c hc => ?_
      obtain ⟨hc, hpaint⟩ := List.mem_filter.1 hc
      rw [hink c hc hpaint]
    have hfilter : (Command.colour red green blue :: cs ++ [Drawing.black]).filter Command.isPaint =
        cs.filter Command.isPaint := by
      simp [Command.isPaint, Drawing.black]
    rw [hfilter, ← hcs, inked_append]
    exact List.append_nil _

end IsInked

/-! ## Glyphs -/

section

open Drawing

theorem TimeSignature.ink?_of_mem_draw {t : TimeSignature α} {c : Command α} (h : c ∈ t.draw) :
    c.ink? = none := by
  have hdraw : ∀ c ∈ t.draw, c.ink? = none := by
    unfold draw
    cases t.meter <;> simp [figure, verticalLine, Command.ink?]
  exact hdraw c h

theorem Barline.isInked_draw (b : Barline α) : IsInked (Glyph.barline b).ink b.draw := by
  have hstrokes : IsInked (Glyph.barline b).ink b.strokes := by
    refine .of_black (fun c hc => Command.ink?_of_isShape (isShape_of_mem_strokes hc))
      (fun c hc _ => ?_)
    have hshape := isShape_of_mem_strokes hc
    cases c with
    | text => cases hshape
    | _ => rfl
  cases hlabel : b.label with
  | none =>
    rw [draw, hlabel, Option.elim_none, List.append_nil]
    exact hstrokes
  | some label =>
    rw [draw, hlabel, Option.elim_some]
    refine hstrokes.append ?_
    rw [drawLabel]
    refine .of_colour [_] (fun c hc => ?_) (fun c hc _ => ?_)
    · rw [List.mem_singleton.1 hc]
      rfl
    · rw [List.mem_singleton.1 hc]
      rfl

theorem Strum.isInked_draw (s : Strum α) : IsInked (Glyph.strum s).ink s.draw := by
  refine .of_colour _ (fun c hc => ?_) (fun c hc _ => ?_)
  · obtain ⟨_, _, _, _, _, rfl⟩ := exists_of_mem_strokes hc
    rfl
  · obtain ⟨_, _, _, _, _, rfl⟩ := exists_of_mem_strokes hc
    rfl

/-- Every glyph finds black and leaves black. -/
theorem Glyph.isInked_draw (g : Glyph α) : IsInked g.ink g.draw := by
  cases g with
  | barline b => exact b.isInked_draw
  | strum s => exact s.isInked_draw
  | tick t =>
    exact .of_black (fun c hc => Command.ink?_of_isShape (Tick.isShape_of_mem_draw hc))
      fun _ _ _ => rfl
  | barberpole b =>
    exact .of_black (fun c hc => Command.ink?_of_isShape (Barberpole.isShape_of_mem_draw hc))
      fun _ _ _ => rfl
  | timeSignature t =>
    exact .of_black (fun c hc => TimeSignature.ink?_of_mem_draw hc) fun _ _ _ => rfl
  | semicircle s =>
    refine .of_black (fun c hc => ?_) fun _ _ _ => rfl
    obtain ⟨side, _⟩ := s
    cases side <;>
    · rw [List.mem_singleton.1 hc]
      rfl
  | note _ | slur _ | alfabeto _ | sectionSign _ =>
    refine .of_black (fun c hc => ?_) fun _ _ _ => rfl
    rw [List.mem_singleton.1 hc]
    rfl

end

/-! ## Documents -/

/-- A piece of a drawing: a glyph with all its commands, or a command of its own, which stands on
the page or the stave itself. -/
inductive Piece (α : Type) where
  | plain (c : Command α)
  | glyph (g : Glyph α)

namespace Piece

def draw : Piece α → List (Command α)
  | plain c => [c]
  | glyph g => g.draw

/-- The colour that a command of the piece is drawn in. -/
def ink : Piece α → Command α → Ink α
  | plain _ => fun _ => .black
  | glyph g => g.ink

def glyph? : Piece α → Option (Glyph α)
  | plain _ => none
  | glyph g => some g

theorem flatMap_plain (cs : List (Command α)) : (cs.map plain).flatMap draw = cs := by
  rw [List.flatMap_map]
  exact List.flatMap_singleton' cs

theorem isInked_plain {c : Command α} (h : c.ink? = none) :
    IsInked (plain c).ink (plain c).draw := by
  refine .of_black (fun d hd => ?_) fun _ _ _ => rfl
  rw [List.mem_singleton.1 hd]
  exact h

end Piece

/-- The tuning, the lines, and the glyphs in the order in which they were written. -/
def Stave.pieces (v : Stave α) : List (Piece α) :=
  (v.labels.elim [] v.drawLabels ++ v.drawLines).map .plain ++ v.glyphs.map .glyph

/-- The page break and the headings, and then the staves. -/
def Page.pieces (p : Page α) : List (Piece α) :=
  ({ p with staves := [] } : Page α).draw.map .plain ++ p.staves.flatMap Stave.pieces

theorem Stave.isInked_of_mem_pieces {v : Stave α} {piece : Piece α} (h : piece ∈ v.pieces) :
    IsInked piece.ink piece.draw := by
  obtain h | h := List.mem_append.1 h
  · obtain ⟨c, hc, rfl⟩ := List.mem_map.1 h
    refine Piece.isInked_plain ?_
    obtain hc | hc := List.mem_append.1 hc
    · obtain ⟨labels, -, hc⟩ := mem_option_elim.1 hc
      simp only [drawLabels, List.mem_flatMap, List.mem_map] at hc
      obtain ⟨_, -, _, -, rfl⟩ := hc
      rfl
    · obtain ⟨i, -, rfl⟩ := List.mem_map.1 hc
      rfl
  · obtain ⟨g, -, rfl⟩ := List.mem_map.1 h
    exact g.isInked_draw

theorem Page.isInked_of_mem_pieces {p : Page α} {piece : Piece α} (h : piece ∈ p.pieces) :
    IsInked piece.ink piece.draw := by
  obtain h | h := List.mem_append.1 h
  · obtain ⟨c, hc, rfl⟩ := List.mem_map.1 h
    have hheads : ∀ c ∈ ({ p with staves := [] } : Page α).draw, c.ink? = none := by
      unfold draw
      cases p.first <;> cases p.title <;> cases p.composer <;> simp [Command.ink?]
    exact Piece.isInked_plain (hheads c hc)
  · obtain ⟨v, -, h⟩ := List.mem_flatMap.1 h
    exact Stave.isInked_of_mem_pieces h

namespace Document

/-- What is drawn of a document, one after the other. -/
def pieces (d : Document α) : List (Piece α) := d.pages.flatMap Page.pieces

theorem draw_eq_flatMap_pieces (d : Document α) : d.draw = d.pieces.flatMap Piece.draw := by
  have hstave (v : Stave α) : v.draw = v.pieces.flatMap Piece.draw := by
    rw [Stave.pieces, List.flatMap_append, Piece.flatMap_plain, List.flatMap_map]
    rfl
  have hpage (p : Page α) : p.draw = p.pieces.flatMap Piece.draw := by
    rw [Page.pieces, List.flatMap_append, Piece.flatMap_plain, List.flatMap_assoc]
    simp only [← hstave]
    simp [Page.draw]
  rw [draw, pieces, List.flatMap_assoc]
  simp only [← hpage]

/-- The glyphs among the pieces are those of the staves. -/
theorem filterMap_glyph?_pieces (d : Document α) :
    d.pieces.filterMap Piece.glyph? = d.pages.flatMap fun p => p.staves.flatMap Stave.glyphs := by
  have hplain (cs : List (Command α)) : (cs.map Piece.plain).filterMap Piece.glyph? = [] := by
    rw [List.filterMap_map]
    exact List.filterMap_eq_nil_iff.2 fun _ _ => rfl
  have hstave (v : Stave α) : v.pieces.filterMap Piece.glyph? = v.glyphs := by
    rw [Stave.pieces, List.filterMap_append, hplain, List.filterMap_map]
    exact List.filterMap_some
  simp only [pieces, Page.pieces, List.filterMap_flatMap, List.filterMap_append, hplain,
    List.nil_append, hstave]

end Document

/-- Pieces that each leave the colour black leave it so together. -/
theorem after_flatMap_draw {pieces : List (Piece α)}
    (h : ∀ piece ∈ pieces, IsInked piece.ink piece.draw) :
    Ink.black.after (pieces.flatMap Piece.draw) = .black := by
  induction pieces with
  | nil => rfl
  | cons piece pieces ih =>
    obtain ⟨hpiece, hpieces⟩ := List.forall_mem_cons.1 h
    rw [List.flatMap_cons, Ink.after_append, hpiece.after, ih hpieces]

theorem inked_flatMap_draw {pieces : List (Piece α)}
    (h : ∀ piece ∈ pieces, IsInked piece.ink piece.draw) :
    inked .black (pieces.flatMap Piece.draw) =
      pieces.flatMap fun piece =>
        (piece.draw.filter Command.isPaint).map fun c => (piece.ink c, c) := by
  induction pieces with
  | nil => rfl
  | cons piece pieces ih =>
    obtain ⟨hpiece, hpieces⟩ := List.forall_mem_cons.1 h
    rw [List.flatMap_cons, inked_append, hpiece.after, hpiece.inked, ih hpieces, List.flatMap_cons]

/-- What is drawn of a document is the drawing of its pieces, among which are all its glyphs.
Before and behind each piece the colour is black, and each command is drawn in the colour that its
own piece gives it: the label of a barline in blue, the strokes of a strum in red, and everything
else in black. -/
theorem Document.inked_draw (d : Document α) :
    (∀ commands, d.render = .ok commands → commands = d.draw) ∧
    d.draw = d.pieces.flatMap Piece.draw ∧
    (d.pieces.filterMap Piece.glyph? = d.pages.flatMap fun p => p.staves.flatMap Stave.glyphs) ∧
    (∀ k, Ink.black.after ((d.pieces.take k).flatMap Piece.draw) = .black) ∧
    inked .black d.draw = d.pieces.flatMap fun piece =>
      (piece.draw.filter Command.isPaint).map fun c => (piece.ink c, c) := by
  have hpieces : ∀ piece ∈ d.pieces, IsInked piece.ink piece.draw := by
    intro piece hpiece
    obtain ⟨p, -, hpiece⟩ := List.mem_flatMap.1 hpiece
    exact Page.isInked_of_mem_pieces hpiece
  refine ⟨fun _ hrender => (draw_of_render hrender).symm, d.draw_eq_flatMap_pieces,
    d.filterMap_glyph?_pieces, fun k => ?_, ?_⟩
  · exact after_flatMap_draw fun piece hpiece => hpieces piece (List.mem_of_mem_take hpiece)
  · rw [draw_eq_flatMap_pieces, inked_flatMap_draw hpieces]

end Tablature
