import Tablature.Proofs.Drawing
import Tablature.Proofs.Settings
import Tablature.Proofs.Stacking

/-!
# Where the composer ends

The composer is the one text of a page that is set to the right. A page takes its width and
its margins from the layout in force at its page line; its staves end where its right
margin begins, but the composer ends as far from the right edge as its left margin is
wide. So the two agree where the margins do.

* `IsBeforePage`, `begun_of_parse`: the lines before a page line say how the page is begun;
* `lengthAfter`, `Layout.value_of_obeyAll`: a length is what the last line for it says;
* `Command.rightEnd?`, `filterMap_rightEnd?_draw`: the texts that are set to the right;
* `composer_of_parse`: where the composer ends, and where the staves do.
-/

namespace Tablature

variable {α : Type}

/-! ## How a page is begun -/

/-- What stands before a page line that has `k` others in front of it. -/
def IsBeforePage (lines : List NumberedLine) (k : Nat) (before : List NumberedLine) : Prop :=
  ∃ n after, lines = before ++ n :: after ∧ n.line.beginsPage = true ∧
    before.countP (·.line.beginsPage) = k

theorem IsBeforePage.concat {lines before : List NumberedLine} {k : Nat}
    (h : IsBeforePage lines k before) (n : NumberedLine) :
    IsBeforePage (lines ++ [n]) k before := by
  obtain ⟨m, after, rfl, hm, hk⟩ := h
  exact ⟨m, after ++ [n], by simp, hm, hk⟩

/-- The page as it was begun, before anything was written on it. -/
def Page.begun (p : Page α) : Page α := { p with title := none, composer := none, staves := [] }

@[simp]
theorem Page.begun_blank (l : Layout α) (number : Nat) (first : Bool) :
    (blank l number first).begun = blank l number first := rfl

variable [Scalar α]

/-- Pages that lines have begun: one for each page line, with the measures that the lines before it
give. -/
structure PagesBegun (pages : List (Page α)) (lines : List NumberedLine) : Prop where
  count : pages.length = lines.countP (·.line.beginsPage)
  blank {k : Nat} {p : Page α} : pages[k]? = some p → ∃ before l, IsBeforePage lines k before ∧
    Layout.initial.obeyAll before = .ok l ∧ p = .blank l p.number p.first

namespace PagesBegun

variable {pages : List (Page α)} {lines : List NumberedLine} {n : NumberedLine}

theorem concat (h : PagesBegun pages lines) (hn : n.line.beginsPage = false) :
    PagesBegun pages (lines ++ [n]) where
  count := by
    rw [h.count, countP_concat_of_neg hn]
  blank hp := by
    obtain ⟨before, l, hbefore, hl⟩ := h.blank hp
    exact ⟨before, l, hbefore.concat n, hl⟩

theorem addPage (h : PagesBegun pages lines) (hn : n.line.beginsPage = true) {l : Layout α}
    (hl : Layout.initial.obeyAll lines = .ok l) (number : Nat) (first : Bool) :
    PagesBegun (pages ++ [.blank l number first]) (lines ++ [n]) where
  count := by
    rw [List.length_append, h.count, countP_concat_of_pos hn, List.length_singleton]
  blank hp := by
    obtain hp | ⟨rfl, rfl⟩ := getElem?_concat_eq_some hp
    · obtain ⟨before, l, hbefore, hl⟩ := h.blank hp
      exact ⟨before, l, hbefore.concat n, hl⟩
    · exact ⟨lines, l, ⟨n, [], rfl, hn, h.count.symm⟩, hl, rfl⟩

end PagesBegun

namespace Score

/-- A page line begins a page with the measures of the layout, and no other line touches them. -/
theorem Wrote.begun {s s' : Score α} {n : NumberedLine} {lines : List NumberedLine}
    (h : s.Wrote n s') (hl : Layout.initial.obeyAll lines = .ok s.layout)
    (hs : PagesBegun (s.document.pages.map Page.begun) lines) :
    PagesBegun (s'.document.pages.map Page.begun) (lines ++ [n]) := by
  have hkept (hn : n.line.beginsPage = false) :
      PagesBegun (s'.document.pages.map Page.begun) (lines ++ [n]) := by
    obtain ⟨hbegins, -⟩ | e := h.map_pages (f := Page.begun) fun _ _ _ _ => rfl
    · rw [hbegins] at hn
      cases hn
    · rw [e]
      exact hs.concat hn
  cases h with
  | @page _ number hn _ =>
    have hpage := hs.addPage (n := n) (by rw [hn]; rfl) hl number s.document.isEmpty
    simpa [Score.addPage, Document.addPage] using hpage
  | stave hn _ _ | title hn _ | composer hn _ | blank hn _ => exact hkept (by rw [hn]; rfl)
  | onStave hn _ _ => exact hkept (Line.begins_of_isOnStave hn).1
  | offPage hn _ => exact hkept (Line.begins_of_isOffPage hn).1

theorem pagesBegun_of_stepAll {s : Score α} {lines : List NumberedLine}
    (h : empty.stepAll lines = .ok s) : PagesBegun (s.document.pages.map Page.begun) lines := by
  have hs : Layout.initial.obeyAll lines = .ok s.layout ∧
      PagesBegun (s.document.pages.map Page.begun) lines :=
    stepAll_induction
      (P := fun s lines => Layout.initial.obeyAll lines = .ok s.layout ∧
        PagesBegun (s.document.pages.map Page.begun) lines)
      (fun h hs => ⟨Layout.obeyAll_concat hs.1 h.obey, h.begun hs.1 hs.2⟩) [] h
      ⟨rfl, rfl, nofun⟩
  exact hs.2

/-- A page has the measures that the lines before its page line give. -/
theorem begun_of_parse {source : String} {d : Document α} (h : parse source = .ok d) {k : Nat}
    {p : Page α} (hp : d.pages[k]? = some p) : ∃ before l,
      IsBeforePage (Line.tokenize source) k before ∧ Layout.initial.obeyAll before = .ok l ∧
        p.begun = .blank l p.number p.first := by
  obtain ⟨s, hs, rfl⟩ := parse_eq_ok.1 h
  have hfinish : s.finish.pages.map Page.begun = s.document.pages.map Page.begun := by
    unfold finish
    split
    · simp only [Document.justify, List.map_map]
      rfl
    · rfl
  have hbegun : (s.document.pages.map Page.begun)[k]? = some p.begun := by
    rw [← hfinish, List.getElem?_map, hp]
    rfl
  exact (pagesBegun_of_stepAll hs).blank hbegun

end Score

/-! ## Lengths -/

/-- The length that the line gives the setting. -/
def Line.length? (s : LengthSetting) : Line → Option α
  | setting t value =>
    if t = .length s then (readLength (Text.trim value.toList)).toOption else none
  | _ => none

/-- The length that the last line for the setting gives it; `default` if there is none. -/
def lengthAfter (s : LengthSetting) (default : α) (lines : List NumberedLine) : α :=
  (lines.filterMap fun n => n.line.length? s).getLast?.getD default

namespace Layout

theorem value_of_obey (s : LengthSetting) {l k : Layout α} {line : Line} (h : l.obey line = .ok k) :
    k.value (.length s) =
      ((line.length? s).map fun v => some (.length v)).getD (l.value (.length s)) := by
  obtain ⟨c, hc, rfl⟩ := tells_of_obey h
  cases hc with
  | @length t value v hv =>
    by_cases ht : Setting.length t = .length s
    · have hset := (stores_setLength l v t).value
      rw [ht] at hset
      simpa [change, Line.length?, ht, hv, Except.toOption] using hset
    · have hset := (stores_setLength l v t).others _ (Ne.symm ht)
      simpa [change, Line.length?, ht] using hset
  | @count t _ n =>
    exact (stores_setCount l n t).others (.length s) (by simp)
  | @face t _ name =>
    exact (stores_setFace l name t).others (.length s) (by simp)
  | flag f => cases f <;> cases s <;> rfl
  | content hline => cases line <;> first | rfl | cases hline
  | _ => cases s <;> rfl

theorem value_of_obeyAll (s : LengthSetting) {default : α}
    (hs : (initial : Layout α).value (.length s) = some (.length default)) {l : Layout α}
    {lines : List NumberedLine} (h : initial.obeyAll lines = .ok l) :
    l.value (.length s) = some (.length (lengthAfter s default lines)) := by
  have hvalue := field_of_obeyAll (fun l : Layout α => l.value (.length s))
    (fun line => (line.length? s).map fun v => some (.length v)) (value_of_obey s) h
  rw [hvalue, hs, lengthAfter, ← List.map_filterMap, List.getLast?_map]
  cases (lines.filterMap fun n => (n.line.length? s : Option α)).getLast? <;> rfl

end Layout

/-! ## Texts that are set to the right -/

namespace Command

/-- Where a text ends that is set to the right. -/
def rightEnd? : Command α → Option α
  | .text _ x _ _ _ .right => some x
  | _ => none

/-- The second end of a line. -/
def lineEnd? : Command α → Option α
  | .line _ _ x _ _ => some x
  | _ => none

omit [Scalar α] in
theorem rightEnd?_of_isStroke {c : Command α} (h : c.isStroke = true) : c.rightEnd? = none := by
  cases c <;> first | rfl | cases h

omit [Scalar α] in
theorem rightEnd?_of_isShape {c : Command α} (h : c.isShape = true) : c.rightEnd? = none :=
  rightEnd?_of_isStroke (isStroke_of_isShape h)

end Command

open Drawing in
/-- Nothing on a stave is set to the right. -/
theorem Glyph.rightEnd?_of_mem_draw {g : Glyph α} {c : Command α} (h : c ∈ g.draw) :
    c.rightEnd? = none := by
  cases g with
  | tick t => exact Command.rightEnd?_of_isShape (Tick.isShape_of_mem_draw h)
  | barberpole b => exact Command.rightEnd?_of_isShape (Barberpole.isShape_of_mem_draw h)
  | strum s => exact Command.rightEnd?_of_isStroke (Strum.isStroke_of_mem_draw h)
  | barline b =>
    obtain h | h := List.mem_append.1 h
    · exact Command.rightEnd?_of_isShape (Barline.isShape_of_mem_strokes h)
    · obtain ⟨label, -, h⟩ := mem_option_elim.1 h
      simp only [Barline.drawLabel, List.mem_cons, List.not_mem_nil, or_false] at h
      rcases h with rfl | rfl | rfl <;> rfl
  | timeSignature t =>
    have htexts : ∀ c ∈ t.draw, c.rightEnd? = none := by
      unfold TimeSignature.draw
      cases t.meter <;> simp [TimeSignature.figure, verticalLine, Command.rightEnd?]
    exact htexts c h
  | semicircle s =>
    obtain ⟨side, _⟩ := s
    cases side <;>
    · rw [List.mem_singleton.1 h]
      rfl
  | slur _ | note _ | alfabeto _ | sectionSign _ =>
    rw [List.mem_singleton.1 h]
    rfl

theorem Stave.rightEnd?_of_mem_draw {v : Stave α} {c : Command α} (h : c ∈ v.draw) :
    c.rightEnd? = none := by
  simp only [draw, List.mem_append] at h
  obtain (h | h) | h := h
  · obtain ⟨labels, -, h⟩ := mem_option_elim.1 h
    simp only [drawLabels, List.mem_flatMap, List.mem_map] at h
    obtain ⟨_, -, _, -, rfl⟩ := h
    rfl
  · obtain ⟨i, -, rfl⟩ := List.mem_map.1 h
    rfl
  · obtain ⟨g, -, h⟩ := List.mem_flatMap.1 h
    exact Glyph.rightEnd?_of_mem_draw h

namespace Page

/-- The composer is the one text of a page that is set to the right. -/
theorem filterMap_rightEnd?_draw (p : Page α) :
    p.draw.filterMap Command.rightEnd? =
      p.composer.elim [] fun _ => [p.width - p.leftMargin] := by
  have hstaves : (p.staves.flatMap Stave.draw).filterMap Command.rightEnd? = [] := by
    rw [List.filterMap_eq_nil_iff]
    intro c hc
    obtain ⟨v, -, hc⟩ := List.mem_flatMap.1 hc
    exact Stave.rightEnd?_of_mem_draw hc
  unfold draw
  simp only [List.filterMap_append, hstaves]
  cases p.first <;> cases p.title <;> cases p.composer <;> rfl

/-- The composer is written so that it ends at `x`, and no other text is set to the right. -/
def ComposerEndsAt (p : Page α) (x : α) : Prop :=
  ∃ c, p.composer = some c ∧ .text c.text x c.y c.style.size c.style.face .right ∈ p.draw ∧
    p.draw.filterMap Command.rightEnd? = [x]

theorem composerEndsAt {p : Page α} (h : p.composer.isSome = true) :
    p.ComposerEndsAt (p.width - p.leftMargin) := by
  obtain ⟨c, hc⟩ := Option.isSome_iff_exists.1 h
  refine ⟨c, hc, ?_, ?_⟩
  · simp [draw, hc]
  · rw [filterMap_rightEnd?_draw, hc]
    rfl

/-- The stave is drawn with lines that end at `x`. -/
def LinesEndAt (p : Page α) (v : Stave α) (x : α) : Prop :=
  ∀ c ∈ v.drawLines, c ∈ p.draw ∧ c.lineEnd? = some x

theorem linesEndAt {p : Page α} {v : Stave α} (hv : v ∈ p.staves) :
    p.LinesEndAt v (v.x + v.length) := by
  intro c hc
  constructor
  · have hstave : c ∈ v.draw := List.mem_append_left _ (List.mem_append_right _ hc)
    exact List.mem_append_right _ (List.mem_flatMap.2 ⟨v, hv, hstave⟩)
  · obtain ⟨i, -, rfl⟩ := List.mem_map.1 hc
    rfl

end Page

/-! ## The composer and the staves -/

/-- A stave ends where the right margin of its page begins. -/
theorem Page.Stacked.end_eq {p : Page Rat} (h : p.Stacked) {v : Stave Rat} (hv : v ∈ p.staves) :
    v.x + v.length = p.width - p.rightMargin := by
  obtain ⟨i, hi⟩ := List.mem_iff_getElem?.1 hv
  obtain ⟨hx, -, hlength⟩ := h i v.toGrid (by rw [List.getElem?_map, hi]; rfl)
  rw [hx, hlength, staveLength]
  ring

namespace Score

theorem stacked_of_parse {source : String} {d : Document α} (h : parse source = .ok d) :
    ∀ p ∈ d.pages, p.Stacked := by
  obtain ⟨s, hs, rfl⟩ := parse_eq_ok.1 h
  exact forall_finish (Q := Page.Stacked) (fun h => h.justify)
    (Page.invariant_stacked.stepAll hs fun p hp => by cases hp)

/-- The composer of a page ends behind the ends of its staves by as much as its right margin is
wider than its left one, so it ends with them if and only if the margins are the same; and these
are what the lines before the page line say, 72 points if there is none. -/
theorem composer_of_parse {source : String} {d : Document Rat} (h : parse source = .ok d) {k : Nat}
    {p : Page Rat} (hp : d.pages[k]? = some p) (hc : p.composer.isSome = true) {v : Stave Rat}
    (hv : v ∈ p.staves) :
    ∃ before x, IsBeforePage (Line.tokenize source) k before ∧ p.ComposerEndsAt x ∧
      p.LinesEndAt v (v.x + v.length) ∧
      x = v.x + v.length +
        (lengthAfter .rightMargin (72 : Rat) before - lengthAfter .leftMargin 72 before) ∧
      (x = v.x + v.length ↔
        lengthAfter .leftMargin (72 : Rat) before = lengthAfter .rightMargin 72 before) := by
  obtain ⟨before, l, hbefore, hl, hbegun⟩ := begun_of_parse h hp
  have hinitial : (72.0 : Rat) = 72 := by norm_num
  have hleft : p.leftMargin = lengthAfter .leftMargin 72 before := by
    have hpage : p.leftMargin = l.leftMargin := congrArg Page.leftMargin hbegun
    have hset := Layout.value_of_obeyAll .leftMargin rfl hl
    rw [hpage, ← hinitial]
    exact Setting.Value.length.inj (Option.some.inj hset)
  have hright : p.rightMargin = lengthAfter .rightMargin 72 before := by
    have hpage : p.rightMargin = l.rightMargin := congrArg Page.rightMargin hbegun
    have hset := Layout.value_of_obeyAll .rightMargin rfl hl
    rw [hpage, ← hinitial]
    exact Setting.Value.length.inj (Option.some.inj hset)
  have hends := (stacked_of_parse h p (List.mem_of_getElem? hp)).end_eq hv
  refine ⟨before, p.width - p.leftMargin, hbefore, Page.composerEndsAt hc, Page.linesEndAt hv,
    ?_, ?_⟩
  · rw [← hleft, ← hright, hends]
    ring
  · rw [← hleft, ← hright, hends]
    constructor <;> intro e <;> linarith

/-- A page with a left margin of 100 points and a right one of 72. -/
theorem unlike_margins : ∃ (d : Document Rat) (p : Page Rat) (v : Stave Rat),
    parse "LEFTMARGIN 100\nP-1\nCOMPOSER Sanz\nS-" = .ok d ∧ d.pages[0]? = some p ∧
      p.composer.isSome = true ∧ v ∈ p.staves ∧ p.width - p.leftMargin = 495 ∧
      v.x + v.length = 523 := by
  have h : ((parse "LEFTMARGIN 100\nP-1\nCOMPOSER Sanz\nS-").toOption.map fun d : Document Rat =>
      d.pages.map fun p => (p.composer.isSome, p.width - p.leftMargin,
        p.staves.map fun v => v.x + v.length)) = some [(true, 495, [523])] := by
    decide +kernel
  obtain ⟨d, hd, hpages⟩ := exists_of_toOption_map h
  obtain ⟨p, hp, hends⟩ := List.map_eq_singleton_iff.1 hpages
  obtain ⟨hc, hends⟩ := Prod.mk.inj hends
  obtain ⟨hx, hstaves⟩ := Prod.mk.inj hends
  obtain ⟨v, hv, hend⟩ := List.map_eq_singleton_iff.1 hstaves
  exact ⟨d, p, v, hd, by rw [hp]; rfl, hc, by simp [hv], hx, hend⟩

/-- Here the composer ends 28 points before the staves do. -/
theorem composer_of_parse_unlike_margins :
    let source := "LEFTMARGIN 100\nP-1\nCOMPOSER Sanz\nS-"
    ∃ (d : Document Rat) (p : Page Rat) (v : Stave Rat), parse source = .ok d ∧
      d.pages[0]? = some p ∧ p.composer.isSome = true ∧ v ∈ p.staves ∧ v.x + v.length = 523 ∧
      ∃ before x, IsBeforePage (Line.tokenize source) 0 before ∧ p.ComposerEndsAt x ∧
        p.LinesEndAt v (v.x + v.length) ∧
        x = v.x + v.length +
          (lengthAfter .rightMargin (72 : Rat) before - lengthAfter .leftMargin 72 before) ∧
        (x = v.x + v.length ↔
          lengthAfter .leftMargin (72 : Rat) before = lengthAfter .rightMargin 72 before) := by
  intro source
  obtain ⟨d, p, v, hd, hp, hc, hv, -, hend⟩ := unlike_margins
  exact ⟨d, p, v, hd, hp, hc, hv, hend, composer_of_parse hd hp hc hv⟩

/-- The composer does not always end where the staves do. -/
theorem exists_composer_off_the_end : ¬ ∀ (source : String) (d : Document Rat),
    parse source = .ok d → ∀ p ∈ d.pages, ∀ x, p.ComposerEndsAt x →
      ∀ v ∈ p.staves, x = v.x + v.length := by
  intro hall
  obtain ⟨d, p, v, hd, hp, hc, hv, hx, hend⟩ := unlike_margins
  have h := hall _ d hd p (List.mem_of_getElem? hp) _ (Page.composerEndsAt hc) v hv
  rw [hx, hend] at h
  norm_num at h

end Score

end Tablature
