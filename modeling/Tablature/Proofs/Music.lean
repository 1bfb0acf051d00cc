import Tablature.Proofs.FirstFault

/-!
# Style never changes the music

A player reads courses, slots and signs off a page, and the words above them; fonts,
spacings, the way a fret is printed and the side that course one is drawn on are
style. What can be written on a score, and the music of it, depends on the layout
through the width of a stave and the number of its courses alone. So style
directives can be taken out of a source, and its music, or its fault, is the same;
except that without a line for french staves there are no lines on them that cannot
be counted.

* `Document.music`: what a player reads;
* `Line.setsStyle`: the directives for the style;
* `Layout.frame`, `Layout.FramedAlike`: what all other directives set;
* `simulation_frame`: layouts with one frame write the same music;
* `parse_of_isQuieted`: a source with its style taken out;
* `exists_unquieted`: a source that stops for its style.
-/

namespace Tablature

/-! ## What a player reads -/

/-- What a player reads off a stave: its marks in the order they were written, and how far it is
written. -/
structure Part where
  courses : Nat
  cursor : Nat
  openSlur : Option Anchor
  marks : List Mark
  deriving DecidableEq, Repr

/-- What a player reads off a page. -/
structure Sheet where
  number : Nat
  title : Option String
  composer : Option String
  parts : List Part
  deriving DecidableEq, Repr

section

variable {α : Type}

def Stave.part (v : Stave α) : Part :=
  ⟨v.courses, v.cursor, v.openSlur, v.glyphs.map Glyph.mark⟩

def Page.sheet (p : Page α) : Sheet :=
  ⟨p.number, p.title.map Heading.text, p.composer.map Heading.text, p.staves.map Stave.part⟩

/-- The music of a document. -/
def Document.music (d : Document α) : List Sheet := d.pages.map Page.sheet

end

/-! ## Directives for the style -/

/-- Whether the length is none of those that make the width of a stave. -/
def LengthSetting.isStyle : LengthSetting → Bool
  | pageWidth | leftMargin | rightMargin => false
  | _ => true

def Setting.isStyle : Setting → Bool
  | length s => s.isStyle
  | count s => s == .slots
  | face _ => true

/-- Whether the line is a directive that the width of a stave and the number of its courses do not
depend on. -/
def Line.isStyle : Line → Bool
  | setting s _ => s.isStyle
  | flag _ | fretMap _ => true
  | _ => false

/-- Whether the line is a directive for the style whose argument can be read. -/
def Line.setsStyle (α : Type) [Scalar α] (line : Line) : Bool :=
  line.isStyle && (line.change? : Except Refusal (Layout.Change α)).toOption.isSome

/-- The second run has the lines of the first, but comments in place of some directives for the
style. -/
def IsQuieted (α : Type) [Scalar α] (ms ns : List NumberedLine) : Prop :=
  List.Forall₂ (fun m n => n = m ∨ m.line.setsStyle α = true ∧ n = ⟨m.number, .comment⟩) ms ns

variable {α : Type} [Scalar α]

namespace Layout

/-- The layout with the measures that make a stave, and those of the first layout for the rest. -/
def frame (l : Layout α) : Layout α :=
  { initial with
    pageWidth := l.pageWidth
    leftMargin := l.leftMargin
    rightMargin := l.rightMargin
    numberOfCourses := l.numberOfCourses }

theorem frame_change (l : Layout α) (c : Change α) :
    (l.change c).frame = (l.frame.change c).frame := by
  cases c with
  | length s v => cases s <;> rfl
  | count s n => cases s <;> rfl
  | face s face => cases s <;> rfl
  | flag flag => cases flag <;> rfl
  | _ => rfl

/-- Directives for the style set nothing else. -/
theorem frame_of_isStyle {line : Line} (h : line.isStyle = true) {c : Change α}
    (hc : line.change? = .ok c) (l : Layout α) : (l.change c).frame = l.frame := by
  cases Line.tells_of_change? hc with
  | @length s => cases s <;> first | rfl | cases h
  | @count s => cases s <;> first | rfl | cases h
  | @face s => cases s <;> rfl
  | tuning _ => cases h
  | flag f => cases f <;> rfl
  | frets _ => rfl
  | emptyMap _ => rfl
  | content _ => rfl

theorem numberOfCourses_frame (l : Layout α) : l.frame.numberOfCourses = l.numberOfCourses := rfl

theorem staveLength_frame (l : Layout α) : l.frame.staveLength = l.staveLength := rfl

omit [Scalar α] in
/-- No directive turns staves back from the french side. -/
theorem orientation_change {l : Layout α} (c : Change α) (h : l.orientation = .french) :
    (l.change c).orientation = .french := by
  by_cases hc : c = .flag .french
  · rw [hc]
    rfl
  · rw [orientation_change_of_ne hc, h]

/-- Two layouts with one frame, of which the first is for french staves if the second is. -/
def FramedAlike (l l' : Layout α) : Prop :=
  l.frame = l'.frame ∧ (l'.orientation = .french → l.orientation = .french)

theorem FramedAlike.change {l l' : Layout α} (h : l.FramedAlike l') (c : Change α) :
    (l.change c).FramedAlike (l'.change c) := by
  refine ⟨by rw [frame_change l, h.1, ← frame_change l'], ?_⟩
  by_cases hc : c = .flag .french
  · rw [hc]
    exact fun _ => rfl
  · rw [orientation_change_of_ne hc, orientation_change_of_ne hc]
    exact h.2

end Layout

namespace Line

theorem isUnseen_of_setsStyle {line : Line} (h : line.setsStyle α = true) :
    line.IsUnseen (Layout.FramedAlike (α := α)) := by
  obtain ⟨hline, hread⟩ := Bool.and_eq_true_iff.1 h
  have hoff : line.isOffPage = true := by
    cases line <;> first | rfl | cases hline
  obtain ⟨c, hc⟩ := Option.isSome_iff_exists.1 hread
  rw [toOption_eq_some] at hc
  exact ⟨hoff, c, hc, fun l l' hl => ⟨(Layout.frame_of_isStyle hline hc l).trans hl.1,
    fun hfrench => Layout.orientation_change c (hl.2 hfrench)⟩⟩

end Line

theorem IsQuieted.sameBut {ms ns : List NumberedLine} (h : IsQuieted α ms ns) :
    SameBut (fun m n => m = n.later 0) (Line.IsUnseen (Layout.FramedAlike (α := α)))
      (Line.IsUnseen (flip (Layout.FramedAlike (α := α)))) ms ns := by
  induction h with
  | nil => exact .nil
  | cons hmn _ ih =>
    obtain rfl | ⟨hm, rfl⟩ := hmn
    · exact .both rfl ih
    · have hcomment : Line.comment.IsUnseen (flip (Layout.FramedAlike (α := α))) :=
        ⟨rfl, .nothing, rfl, fun _ _ => id⟩
      exact .left (Line.isUnseen_of_setsStyle hm) (.right hcomment ih)

/-! ## The music of what is written -/

namespace Stave

theorem part_place (v : Stave α) (l : Layout α) (m : Mark) :
    (v.place l m).part = { v.part with marks := v.part.marks ++ [m] } := by
  simp only [part, place, List.map_append, List.map_cons, List.map_nil, mark_place]

/-- A stave has the courses of its layout, and no music at first. -/
theorem part_blank (l : Layout α) (first : Bool) (x y length : α) :
    ((blank l first).moveTo x y length).part = ⟨l.numberOfCourses, 0, none, []⟩ := rfl

/-- Spreading a stave does not change its music. -/
theorem part_justify (v : Stave α) : v.justify.part = v.part := by
  unfold justify
  split
  · rfl
  · simp only [part, List.map_map, Function.comp_def, mark_pad]

end Stave

theorem Page.sheet_justify (p : Page α) : p.justify.sheet = p.sheet := by
  simp only [sheet, justify, List.map_map, Function.comp_def, Stave.part_justify]

theorem Document.music_justify (d : Document α) : d.justify.music = d.music := by
  simp only [music, justify, List.map_map, Function.comp_def, Page.sheet_justify]

theorem Score.music_finish (s : Score α) : s.finish.music = s.document.music := by
  unfold finish
  split
  · exact s.document.music_justify
  · rfl

/-! ## Runs that differ in style -/

/-- Two pages with one music and one room for staves, their staves aside. -/
def Page.SameHead (p q : Page α) : Prop :=
  p.bare.sheet = q.bare.sheet ∧ p.staveLength = q.staveLength

/-- Two staves with one music, of which the first is french if the second is. -/
def Stave.SamePart (v w : Stave α) : Prop :=
  v.part = w.part ∧ (w.orientation = .french → v.orientation = .french)

omit [Scalar α] in
/-- If the lines of the first can be counted, those of the second can. -/
theorem Stave.SamePart.isCountable {v w : Stave α} (h : v.SamePart w) (hv : v.isCountable = true) :
    w.isCountable = true := by
  have hcourses : v.courses = w.courses := congrArg Part.courses h.1
  rw [Grid.isCountable_iff] at hv ⊢
  exact fun hw => hcourses ▸ hv (h.2 hw)

/-- On layouts with one frame, the same lines write the same music. -/
theorem simulation_frame :
    Simulation (α := α) (· = .overflow) (fun _ => True) Layout.FramedAlike Page.SameHead
      Stave.SamePart where
  change {l l' line c} _ _ h := h.change c
  cursor h := congrArg Part.cursor h.1
  courses h := congrArg Part.courses h.1
  openSlur h := congrArg Part.openSlur h.1
  countable {v w} h := by
    cases hv : v.isCountable with
    | true => exact .inl (h.isCountable hv).symm
    | false => exact .inr ⟨rfl, rfl⟩
  advance slots :=
    And.imp_left (congrArg fun part : Part => { part with cursor := part.cursor + slots })
  setSlur start := And.imp_left (congrArg fun part : Part => { part with openSlur := start })
  place _ _ _ h := ⟨by rw [Stave.part_place, Stave.part_place, h.1], h.2⟩
  staves _ _ := id
  page {l l' _} _ _ _ h := by
    have hroom : l.staveLength = l'.staveLength := by
      rw [← Layout.staveLength_frame l, h.1, Layout.staveLength_frame]
    exact ⟨rfl, hroom⟩
  title {_ _ _ _ text} _ _ :=
    And.imp_left (congrArg fun sheet : Sheet => { sheet with title := some text })
  composer {_ _ _ _ text} _ _ :=
    And.imp_left (congrArg fun sheet : Sheet => { sheet with composer := some text })
  number h := congrArg Sheet.number h.1
  staveLength := And.right
  stave {l _ _ _} _ _ _ h _ := by
    refine ⟨?_, h.2⟩
    rw [Stave.part_blank, Stave.part_blank, ← Layout.numberOfCourses_frame l, h.1,
      Layout.numberOfCourses_frame]

theorem Page.InStep.sheet_eq {p q : Page α} (h : p.InStep SameHead Stave.SamePart q) :
    p.sheet = q.sheet := by
  have hparts : p.staves.map Stave.part = q.staves.map Stave.part := by
    rw [← List.forall₂_eq_eq_eq, List.forall₂_map_left_iff, List.forall₂_map_right_iff]
    exact h.2.imp fun _ _ => And.left
  have hsheet (p : Page α) : p.sheet = { p.bare.sheet with parts := p.staves.map Stave.part } := rfl
  rw [hsheet p, hsheet q, h.1.1, hparts]

theorem Score.InStep.music_eq {R : Layout α → Layout α → Prop} {s t : Score α}
    (h : s.InStep R Page.SameHead Stave.SamePart t) :
    s.document.music = t.document.music := by
  unfold Document.music
  rw [← List.forall₂_eq_eq_eq, List.forall₂_map_left_iff, List.forall₂_map_right_iff]
  exact h.pages.imp fun _ _ => Page.InStep.sheet_eq

namespace Score

/-- A source and the one that has comments in place of any of its directives for the style have the
same music, or the same fault on the same line, unless a sum is too large for the source: then its
lines have begun a french stave with the largest number of courses. -/
theorem parse_of_isQuieted {source quiet : String}
    (h : IsQuieted α (Line.tokenize source) (Line.tokenize quiet)) :
    ((parse source : Except (Stop α) (Document α)) ≠ .error .overflow →
      (parse source : Except (Stop α) (Document α)).map Document.music =
        (parse quiet).map Document.music) ∧
    ((parse source : Except (Stop α) (Document α)) = .error .overflow →
      ∃ (before : List NumberedLine) (s : Score α) (v : Stave α),
        before <+: Line.tokenize source ∧ empty.stepAll before = .ok s ∧
        s.document.currentStave? = some v ∧ v.orientation = .french ∧ Count.max ≤ v.courses) := by
  refine ⟨fun hcount => ?_, fun hoverflow =>
    exists_uncountable_of_stepAll (parse_eq_error.1 hoverflow)⟩
  have hstart : InStep Layout.FramedAlike Page.SameHead Stave.SamePart empty (empty : Score α) :=
    ⟨⟨rfl, id⟩, .nil⟩
  obtain ⟨_, rfl, hstop⟩ | hrun :=
    simulation_frame.agree_stepAll_later (fun _ _ => trivial) (IsQuieted.sameBut h) hstart
  · exact absurd (parse_eq_error.2 hstop) hcount
  have hmap (x : Except (Stop α) (Score α)) :
      (x.map finish).map Document.music = x.map fun s => s.document.music := by
    cases x with
    | ok s => exact congrArg Except.ok s.music_finish
    | error e => rfl
  unfold parse
  rw [hmap, hmap]
  generalize (empty : Score α).stepAll (Line.tokenize source) = x,
    (empty : Score α).stepAll (Line.tokenize quiet) = y at hrun ⊢
  cases hrun with
  | ok hst => exact congrArg Except.ok hst.music_eq
  | error he => rw [he, Stop.later_zero]

/-- Two pages with a slur, a fret that is mapped and a stave that is spread, and a source that is
refused behind directives for the style. -/
theorem parse_of_isQuieted_folias :
    let source := "FRENCH\nSLOTS 5\nP-1\nTITLE Folias\nFRETMAP 2-c\nS-\nT-C\nM. 1-2 3-[\n2-0 1-]\n" ++
      "JUSTIFIED\nP-7\nS-\n5-11"
    let quiet := "; top\nSLOTS 5\nP-1\nTITLE Folias\n;\nS-\nT-C\nM. 1-2 3-[\n2-0 1-]\n" ++
      "; spread\nP-7\nS-\n5-11"
    let refused := "SLOTS 3\nP-1\nFRETSIZE 8\nS-\n1-0 7-0"
    let hushed := ";\nP-1\n;\nS-\n1-0 7-0"
    IsQuieted Float (Line.tokenize source) (Line.tokenize quiet) ∧
      IsQuieted Float (Line.tokenize refused) (Line.tokenize hushed) ∧
      (parse source : Except (Stop Float) (Document Float)) ≠ parse quiet ∧
      (parse source : Except (Stop Float) (Document Float)).map Document.music =
        .ok [⟨1, some "Folias", none, [⟨5, 5, none, [.timeSignature 0 .common,
          .tick 3 ⟨.minim, true⟩, .note 3 1 "2", .note 4 2 "0", .slur ⟨3, 3⟩ ⟨4, 1⟩]⟩]⟩,
          ⟨7, none, none, [⟨5, 1, none, [.note 0 5 "11"]⟩]⟩] ∧
      (parse quiet : Except (Stop Float) (Document Float)).map Document.music =
        (parse source).map Document.music ∧
      (parse refused : Except (Stop Float) (Document Float)).map Document.music =
        .error (.fault (.courseOutOfRange 5 7 5)) ∧
      (parse hushed : Except (Stop Float) (Document Float)).map Document.music =
        (parse refused).map Document.music := by
  intro source quiet refused hushed
  have hquiet : IsQuieted Float (Line.tokenize source) (Line.tokenize quiet) := by
    unfold IsQuieted
    decide +kernel
  have hhushed : IsQuieted Float (Line.tokenize refused) (Line.tokenize hushed) := by
    unfold IsQuieted
    decide +kernel
  refine ⟨hquiet, hhushed, ?_, ?_, ((parse_of_isQuieted hquiet).1 ?_).symm, ?_,
    ((parse_of_isQuieted hhushed).1 ?_).symm⟩
  · decide +kernel
  · decide +kernel
  · decide +kernel
  · decide +kernel
  · decide +kernel

/-- With its line for french staves, this source stops at its note; without, it has the music that
it says. -/
theorem exists_unquieted : ∃ source quiet : String,
    IsQuieted Float (Line.tokenize source) (Line.tokenize quiet) ∧
      (parse source : Except (Stop Float) (Document Float)) = .error .overflow ∧
      (parse quiet : Except (Stop Float) (Document Float)).map Document.music =
        .ok [⟨1, none, none, [⟨Count.max, 1, none, [.note 0 1 "0"]⟩]⟩] := by
  refine ⟨"FRENCH\nNUMBEROFCOURSES 18446744073709551615\nP-1\nS-\n1-0",
    ";\nNUMBEROFCOURSES 18446744073709551615\nP-1\nS-\n1-0", ?_, ?_, ?_⟩
  · unfold IsQuieted
    decide +kernel
  · decide +kernel
  · decide +kernel

end Score

end Tablature
