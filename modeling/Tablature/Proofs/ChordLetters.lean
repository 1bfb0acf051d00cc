import Tablature.Proofs.Accounting
import Tablature.Proofs.Composer
import Tablature.Proofs.Growth
import Tablature.Proofs.Labels

/-!
# How large a chord letter is

A stave keeps the spacing and the number of its courses from its stave line on, but a chord
letter takes its size from the layout in force at its own line. The two agree where no
line between them sets the spacing of courses or their number; otherwise the letter is as
large as if it stood on a stave that begins there.

* `IsBeforeLetter`: the lines before a chord line, by the stave that it writes on;
* `Acts.exists_marks`, `mem_glyphs_of_writeLine`: writing a line adds marks in the style of
  the layout, and a letter only if it is a chord line;
* `Wrote.staved`: what a line does to the staves of a document in reading order;
* `Lettered`: the letters of a document are those of its chord lines;
* `letters_of_parse`: how large they are.
-/

namespace Tablature

/-! ## Chord lines -/

/-- What stands before a chord line that is behind `k + 1` stave lines. -/
def IsBeforeLetter (lines : List NumberedLine) (k : Nat) (chord : String)
    (before : List NumberedLine) : Prop :=
  ∃ n after, lines = before ++ n :: after ∧ n.line = .alfabeto chord ∧
    before.countP (·.line.beginsStave) = k + 1

theorem IsBeforeLetter.concat {lines before : List NumberedLine} {k : Nat} {chord : String}
    (h : IsBeforeLetter lines k chord before) (n : NumberedLine) :
    IsBeforeLetter (lines ++ [n]) k chord before := by
  obtain ⟨m, after, rfl, hm, hk⟩ := h
  exact ⟨m, after ++ [n], by simp, hm, hk⟩

/-- Between the chord line and the last stave line before it stands no other. -/
theorem IsBeforeStave.exists_between {lines before upto : List NumberedLine} {k : Nat}
    {chord : String} (h : IsBeforeStave lines k before) (h' : IsBeforeLetter lines k chord upto) :
    ∃ n between, upto = before ++ n :: between ∧ n.line = .stave ∧
      ∀ m ∈ between, m.line.beginsStave = false := by
  obtain ⟨n, after, hlines, hn, hk⟩ := h
  obtain ⟨m, after', hlines', -, hk'⟩ := h'
  rw [hlines, List.append_eq_append_iff] at hlines'
  obtain ⟨rest, rfl, hrest⟩ | ⟨rest, rfl, -⟩ := hlines'
  · cases rest with
    | nil =>
      rw [List.append_nil] at hk'
      omega
    | cons n' between =>
      obtain ⟨rfl, -⟩ := List.cons_eq_cons.1 hrest
      rw [List.countP_append, List.countP_cons, hk, if_pos hn] at hk'
      have hnone : between.countP (·.line.beginsStave) = 0 := by omega
      refine ⟨n, between, rfl, ?_, fun m hm => ?_⟩
      · obtain ⟨number, line⟩ := n
        cases line <;> first | rfl | cases hn
      · simpa using List.countP_eq_zero.1 hnone m hm
  · rw [List.countP_append] at hk
    omega

/-- Only a chord line tells of a letter. -/
theorem Line.eq_alfabeto_of_mem_events {line : Line} {slot slot' : Nat} {es : List Event}
    {chord : String} (h : line.events? slot = some es)
    (hmem : .mark (.alfabeto slot' chord) ∈ es) : line = .alfabeto chord := by
  cases line with
  | timeSignature figures =>
    obtain ⟨meter, -, rfl⟩ := Option.map_eq_some_iff.1 h
    simp at hmem
  | barberpole range =>
    simp only [events?] at h
    split at h
    · cases h
      simp at hmem
    · obtain ⟨ends, -, rfl⟩ := Option.map_eq_some_iff.1 h
      simp at hmem
  | notes rhythm tokens =>
    obtain ⟨ts, -, rfl⟩ := Option.map_eq_some_iff.1 h
    obtain hmem | hmem := List.mem_append.1 hmem
    · simp at hmem
    · obtain ⟨⟨course, sign⟩, -, hmem⟩ := List.mem_flatMap.1 hmem
      cases sign <;> simp [NoteToken.events] at hmem
  | alfabeto chord' =>
    cases h
    simp only [List.mem_singleton, Event.mark.injEq, Mark.alfabeto.injEq] at hmem
    rw [hmem.2]
  | _ =>
    cases h
    simp at hmem

variable {α : Type} [Scalar α]

/-- A chord letter is that of a mark, in the size of the layout. -/
theorem Mark.eq_alfabeto_of_place {g : Grid α} {l : Layout α} {m : Mark} {a : Alfabeto α}
    (h : m.place g l = .alfabeto a) : m = .alfabeto a.slot a.chord ∧ a.size = l.chordSize := by
  cases m with
  | alfabeto slot chord =>
    cases h
    exact ⟨rfl, rfl⟩
  | _ => cases h

namespace Stave

/-- What acts write: marks, in the style of the layout. -/
theorem Acts.exists_marks {l : Layout α} {v w : Stave α} (h : Acts l v w) :
    w.toGrid = v.toGrid ∧
      ∃ marks : List Mark, w.glyphs = v.glyphs ++ marks.map (·.place v.toGrid l) := by
  refine h.invariant (P := fun w => w.toGrid = v.toGrid ∧
    ∃ marks : List Mark, w.glyphs = v.glyphs ++ marks.map (·.place v.toGrid l)) ?_
    ⟨rfl, [], (List.append_nil _).symm⟩
  rintro u w hact ⟨hgrid, marks, hmarks⟩
  have hplace (m : Mark) : ∃ marks : List Mark,
      u.glyphs ++ [m.place u.toGrid l] = v.glyphs ++ marks.map (·.place v.toGrid l) :=
    ⟨marks ++ [m], by simp [hmarks, hgrid]⟩
  cases hact with
  | @place m _ => exact ⟨hgrid, hplace m⟩
  | advance _ | beginSlur _ | dropSlur => exact ⟨hgrid, marks, hmarks⟩
  | endSlur _ h =>
    obtain ⟨start, -, rfl⟩ := Option.map_eq_some_iff.1 h
    exact ⟨hgrid, hplace _⟩

/-- A chord line adds a letter in the size of the layout, and no other line adds one. -/
theorem mem_glyphs_of_writeLine {l : Layout α} {v w : Stave α} {n : NumberedLine}
    (h : v.writeLine l n = .ok w) {a : Alfabeto α} (ha : .alfabeto a ∈ w.glyphs) :
    .alfabeto a ∈ v.glyphs ∨ n.line = .alfabeto a.chord ∧ a.size = l.chordSize := by
  obtain ⟨-, marks, hmarks⟩ := (acts_writeLine h).exists_marks
  obtain ⟨-, es, hes, hevents⟩ := writeLine_events h
  rw [hmarks] at ha
  refine (List.mem_append.1 ha).imp_right fun ha => ?_
  obtain ⟨m, hm, hplace⟩ := List.mem_map.1 ha
  obtain ⟨rfl, hsize⟩ := Mark.eq_alfabeto_of_place hplace
  have hes' : es = marks.map Mark.event := by
    have hmap : w.events = v.events ++ marks.map Mark.event := by
      simp [events, hmarks, Function.comp_def]
    exact List.append_cancel_left (hevents.symm.trans hmap)
  have hmem : .mark (.alfabeto a.slot a.chord) ∈ es :=
    hes' ▸ List.mem_map.2 ⟨_, hm, rfl⟩
  exact ⟨Line.eq_alfabeto_of_mem_events hes hmem, hsize⟩

/-- Justifying moves a letter, but does not make it larger or smaller. -/
theorem exists_of_mem_justify {v : Stave α} {a : Alfabeto α} (h : .alfabeto a ∈ v.justify.glyphs) :
    ∃ b, .alfabeto b ∈ v.glyphs ∧ b.chord = a.chord ∧ b.size = a.size := by
  unfold justify at h
  split at h
  · exact ⟨a, h, rfl, rfl⟩
  · obtain ⟨g, hg, hpad⟩ := List.mem_map.1 h
    cases g with
    | alfabeto b =>
      cases hpad
      exact ⟨b, hg, rfl, rfl⟩
    | barline b =>
      obtain ⟨kind, _⟩ := b
      cases kind <;> cases hpad
    | _ => cases hpad

end Stave

/-! ## Staves in reading order -/

omit [Scalar α] in
theorem Document.staves_setCurrentPage {d : Document α} {p : Page α}
    (hp : d.currentPage? = some p) : ∃ staves, d.staves = staves ++ p.staves ∧
      ∀ q : Page α, (d.setCurrentPage q).staves = staves ++ q.staves := by
  obtain ⟨pages, hpages⟩ := List.getLast?_eq_some_iff.1 hp
  refine ⟨pages.flatMap Page.staves, ?_, fun q => ?_⟩
  · simp [staves, hpages]
  · simp [staves, setCurrentPage, hpages]

namespace Score

/-- What a line makes of the staves of a document: it adds one that is empty, writes on the last, or
leaves them alone. -/
inductive Staved (s : Score α) (n : NumberedLine) : List (Stave α) → Prop where
  | stave {v : Stave α} : n.line.beginsStave = true → v.glyphs = [] →
    Staved s n (s.document.staves ++ [v])
  | written {staves : List (Stave α)} {v w : Stave α} : n.line.beginsStave = false →
    s.document.staves = staves ++ [v] → v.writeLine s.layout n = .ok w → Staved s n (staves ++ [w])
  | kept : n.line.beginsStave = false → Staved s n s.document.staves

theorem Wrote.staved {s s' : Score α} {n : NumberedLine} (h : s.Wrote n s') :
    s.Staved n s'.document.staves := by
  cases h with
  | @page _ number hn _ =>
    have hstaves : (s.addPage number).document.staves = s.document.staves := by
      simp [addPage, Document.addPage, Document.staves, Page.blank]
    rw [hstaves]
    exact .kept (by rw [hn]; rfl)
  | @stave p q hn hp hq =>
    obtain ⟨-, rfl⟩ := Page.append_eq_ok.1 hq
    obtain ⟨staves, hstaves, hset⟩ := Document.staves_setCurrentPage hp
    rw [setPage, hset, ← List.append_assoc, ← hstaves]
    exact .stave (by rw [hn]; rfl) rfl
  | title hn hp | composer hn hp =>
    obtain ⟨staves, hstaves, hset⟩ := Document.staves_setCurrentPage hp
    rw [setPage, hset]
    have hkept := Staved.kept (s := s) (n := n) (by rw [hn]; rfl)
    rw [hstaves] at hkept
    exact hkept
  | @onStave v w hn hv hw =>
    obtain ⟨p, hp, hv, hpages⟩ := Document.exists_currentPage hv
    obtain ⟨staves, hstaves, hset⟩ := Document.staves_setCurrentPage hp
    obtain ⟨above, habove⟩ := List.getLast?_eq_some_iff.1 hv
    have hpage : (p.setCurrentStave w).staves = above ++ [w] := by
      simp [Page.setCurrentStave, habove]
    rw [setStave, hpages, hset, hpage, ← List.append_assoc]
    rw [habove, ← List.append_assoc] at hstaves
    exact .written (Line.begins_of_isOnStave hn).2 hstaves hw
  | blank hn _ => exact .kept (by rw [hn]; rfl)
  | offPage hn _ => exact .kept (Line.begins_of_isOffPage hn).2.1

end Score

/-! ## Letters -/

/-- There is a stave for each stave line, and each letter on it is that of a chord line behind this
and before the next, in the size of the layout that the lines before give. -/
structure Lettered (staves : List (Stave α)) (lines : List NumberedLine) : Prop where
  count : staves.length = lines.countP (·.line.beginsStave)
  letter {k : Nat} {v : Stave α} {a : Alfabeto α} : staves[k]? = some v →
    .alfabeto a ∈ v.glyphs → ∃ before l, IsBeforeLetter lines k a.chord before ∧
      Layout.initial.obeyAll before = .ok l ∧ a.size = l.chordSize

theorem Lettered.staved {s : Score α} {n : NumberedLine} {staves : List (Stave α)}
    {lines : List NumberedLine} (h : Lettered s.document.staves lines)
    (hl : Layout.initial.obeyAll lines = .ok s.layout) (hstaved : s.Staved n staves) :
    Lettered staves (lines ++ [n]) := by
  have hold {k : Nat} {v : Stave α} {a : Alfabeto α} (hv : s.document.staves[k]? = some v)
      (ha : .alfabeto a ∈ v.glyphs) : ∃ before l, IsBeforeLetter (lines ++ [n]) k a.chord before ∧
        Layout.initial.obeyAll before = .ok l ∧ a.size = l.chordSize := by
    obtain ⟨before, l, hbefore, hl⟩ := h.letter hv ha
    exact ⟨before, l, hbefore.concat n, hl⟩
  cases hstaved with
  | stave hn hglyphs =>
    refine ⟨?_, fun hv ha => ?_⟩
    · rw [List.length_append, h.count, countP_concat_of_pos hn, List.length_singleton]
    · obtain hv | ⟨-, rfl⟩ := getElem?_concat_eq_some hv
      · exact hold hv ha
      · rw [hglyphs] at ha
        cases ha
  | @written staves v w hn hstaves hw =>
    have hcount := h.count
    rw [hstaves, List.length_append, List.length_singleton] at hcount
    refine ⟨?_, fun {k u a} hu ha => ?_⟩
    · rw [List.length_append, List.length_singleton, hcount, countP_concat_of_neg hn]
    · obtain hu | ⟨rfl, rfl⟩ := getElem?_concat_eq_some hu
      · refine hold (v := u) ?_ ha
        rw [hstaves, List.getElem?_append_left (List.getElem?_eq_some_iff.1 hu).1, hu]
      · obtain ha | ⟨hline, hsize⟩ := Stave.mem_glyphs_of_writeLine hw ha
        · refine hold (v := v) ?_ ha
          rw [hstaves, List.getElem?_concat_length]
        · exact ⟨lines, s.layout, ⟨n, [], rfl, hline, hcount.symm⟩, hl, hsize⟩
  | kept hn =>
    refine ⟨?_, hold⟩
    rw [h.count, countP_concat_of_neg hn]

/-! ## Sizes -/

/-- How large a letter is with the spacing and the number of courses that lines give. -/
def chordSizeAfter (lines : List NumberedLine) : α :=
  0.8 * lengthAfter .courseSpacing 10.0 lines * Scalar.count (countedCourses lines)

/-- The line says nothing of the spacing of courses or of their number. -/
def Line.KeepsCourses (α : Type) [Scalar α] (line : Line) : Prop :=
  (line.length? .courseSpacing : Option α) = none ∧ line.countsCourses? = none

theorem chordSizeAfter_append {before lines : List NumberedLine}
    (h : ∀ n ∈ lines, n.line.KeepsCourses α) :
    (chordSizeAfter (before ++ lines) : α) = chordSizeAfter before := by
  have hspacing : lines.filterMap (fun n => (n.line.length? .courseSpacing : Option α)) = [] :=
    List.filterMap_eq_nil_iff.2 fun n hn => (h n hn).1
  have hcount : lines.filterMap (fun n => n.line.countsCourses?) = [] :=
    List.filterMap_eq_nil_iff.2 fun n hn => (h n hn).2
  simp only [chordSizeAfter, lengthAfter, countedCourses, List.filterMap_append, hspacing, hcount,
    List.append_nil]

namespace Layout

/-- No line sets the size of letters. -/
theorem alfabetoSize_of_obey {l k : Layout α} {line : Line} (h : l.obey line = .ok k)
    (hl : l.alfabetoSize = none) : k.alfabetoSize = none := by
  obtain ⟨c, hc, rfl⟩ := tells_of_obey h
  cases hc with
  | @length s | @count s | @face s | @flag s => cases s <;> exact hl
  | _ => exact hl

variable {l : Layout α} {lines : List NumberedLine}

theorem courses_of_obeyAll (h : initial.obeyAll lines = .ok l) :
    l.courseSpacing = lengthAfter .courseSpacing 10.0 lines ∧
      l.numberOfCourses = countedCourses lines := by
  have hspacing := value_of_obeyAll .courseSpacing rfl h
  exact ⟨Setting.Value.length.inj (Option.some.inj hspacing),
    field_of_obeyAll numberOfCourses Line.countsCourses? numberOfCourses_of_obey h⟩

theorem chordSize_of_obeyAll (h : initial.obeyAll lines = .ok l) :
    l.chordSize = chordSizeAfter lines := by
  have hnone : l.alfabetoSize = none :=
    obeyAll_induction (P := fun l => l.alfabetoSize = none) alfabetoSize_of_obey h rfl
  obtain ⟨hspacing, hcount⟩ := courses_of_obeyAll h
  rw [chordSize, hnone, Option.getD_none, hspacing, hcount, chordSizeAfter]

end Layout

namespace Score

theorem lettered_of_stepAll {s : Score α} {lines : List NumberedLine}
    (h : empty.stepAll lines = .ok s) : Lettered s.document.staves lines := by
  have hs : Layout.initial.obeyAll lines = .ok s.layout ∧ Lettered s.document.staves lines :=
    stepAll_induction
      (P := fun s lines => Layout.initial.obeyAll lines = .ok s.layout ∧
        Lettered s.document.staves lines)
      (fun h hs => ⟨Layout.obeyAll_concat hs.1 h.obey, hs.2.staved hs.1 h.staved⟩) [] h
      ⟨rfl, rfl, nofun⟩
  exact hs.2

/-- Every stave of a finished document is one that was written, or that one justified. -/
theorem exists_of_getElem?_finish {s : Score α} {k : Nat} {v : Stave α}
    (hv : s.finish.staves[k]? = some v) :
    ∃ u, s.document.staves[k]? = some u ∧ (v = u ∨ v = u.justify) := by
  unfold finish at hv
  split at hv
  · have hstaves : s.document.justify.staves = s.document.staves.map Stave.justify := by
      simp only [Document.staves, Document.justify, List.flatMap_map, List.map_flatMap]
      rfl
    rw [hstaves, List.getElem?_map] at hv
    obtain ⟨u, hu, rfl⟩ := Option.map_eq_some_iff.1 hv
    exact ⟨u, hu, .inr rfl⟩
  · exact ⟨v, hv, .inl rfl⟩

/-- A letter is that of a chord line, and as large as the spacing and the number of courses say that
are in force there; its stave has those in force at its own stave line. If no line between the two
says anything of them, the letter is as large as its stave asks for. -/
theorem letters_of_parse {source : String} {d : Document α} (h : parse source = .ok d) {k : Nat}
    {v : Stave α} (hv : d.staves[k]? = some v) {a : Alfabeto α} (ha : .alfabeto a ∈ v.glyphs) :
    ∃ before n between, IsBeforeStave (Line.tokenize source) k before ∧ n.line = .stave ∧
      (∀ m ∈ between, m.line.beginsStave = false) ∧
      IsBeforeLetter (Line.tokenize source) k a.chord (before ++ n :: between) ∧
      v.courseSpacing = lengthAfter .courseSpacing 10.0 before ∧
      v.courses = countedCourses before ∧
      a.size = 0.8 * lengthAfter .courseSpacing 10.0 (before ++ n :: between) *
        Scalar.count (countedCourses (before ++ n :: between)) ∧
      ((∀ m ∈ between, m.line.KeepsCourses α) →
        a.size = 0.8 * v.courseSpacing * Scalar.count v.courses) := by
  obtain ⟨before, l, hbefore, hl, hplan⟩ := plan_of_parse h hv
  obtain ⟨hspacing, hcount⟩ := Layout.courses_of_obeyAll hl
  have hspacing : v.courseSpacing = lengthAfter .courseSpacing 10.0 before :=
    (congrArg (fun u : Stave α => u.courseSpacing) hplan).trans hspacing
  have hcount : v.courses = countedCourses before :=
    (congrArg (fun u : Stave α => u.courses) hplan).trans hcount
  obtain ⟨s, hs, rfl⟩ := parse_eq_ok.1 h
  have hletter : ∃ upto l, IsBeforeLetter (Line.tokenize source) k a.chord upto ∧
      Layout.initial.obeyAll upto = .ok l ∧ a.size = l.chordSize := by
    have hlettered := lettered_of_stepAll hs
    obtain ⟨u, hu, rfl | rfl⟩ := exists_of_getElem?_finish hv
    · exact hlettered.letter hu ha
    · obtain ⟨b, hb, hchord, hsize⟩ := Stave.exists_of_mem_justify ha
      rw [← hchord, ← hsize]
      exact hlettered.letter hu hb
  obtain ⟨upto, l', hupto, hl', hsize⟩ := hletter
  obtain ⟨n, between, rfl, hn, hbetween⟩ := hbefore.exists_between hupto
  have hsize := hsize.trans (Layout.chordSize_of_obeyAll hl')
  refine ⟨before, n, between, hbefore, hn, hbetween, hupto, hspacing, hcount, hsize, ?_⟩
  intro hkeeps
  have hall : ∀ m ∈ n :: between, m.line.KeepsCourses α := by
    rintro m (_ | ⟨_, hm⟩)
    · rw [hn]
      exact ⟨rfl, rfl⟩
    · exact hkeeps m hm
  rw [hsize, chordSizeAfter_append hall, hspacing, hcount, chordSizeAfter]

/-- A stave of five courses, and a letter behind a line that counts six. -/
theorem letter_behind_count : ∃ (d : Document Float) (v : Stave Float) (a : Alfabeto Float),
    parse "P-1\nS-\nNUMBEROFCOURSES 6\nAB-A" = .ok d ∧ d.staves[0]? = some v ∧
      .alfabeto a ∈ v.glyphs ∧ v.courseSpacing = 10.0 ∧ v.courses = 5 ∧ a.size = 48.0 := by
  have h : (parse "P-1\nS-\nNUMBEROFCOURSES 6\nAB-A").toOption.map
      (fun d : Document Float => d.staves.map fun v => (v.courseSpacing, v.courses,
        v.glyphs.map fun g => match g with
          | .alfabeto a => some a.size
          | _ => none)) = some [(10.0, 5, [some 48.0])] := by
    decide +kernel
  obtain ⟨d, hd, hstaves⟩ := exists_of_toOption_map h
  obtain ⟨v, hv, hstave⟩ := List.map_eq_singleton_iff.1 hstaves
  obtain ⟨hspacing, hstave⟩ := Prod.mk.inj hstave
  obtain ⟨hcourses, hglyphs⟩ := Prod.mk.inj hstave
  obtain ⟨g, hg, hsize⟩ := List.map_eq_singleton_iff.1 hglyphs
  have hv₀ : d.staves[0]? = some v := by rw [hv]; rfl
  cases g with
  | alfabeto a => exact ⟨d, v, a, hd, hv₀, by simp [hg], hspacing, hcourses, Option.some.inj hsize⟩
  | _ => cases hsize

/-- The letter is eight tenths of six courses high, not of the five that its stave has. -/
theorem letters_of_parse_behind_count :
    let source := "P-1\nS-\nNUMBEROFCOURSES 6\nAB-A"
    ∃ (d : Document Float) (v : Stave Float) (a : Alfabeto Float), parse source = .ok d ∧
      d.staves[0]? = some v ∧ .alfabeto a ∈ v.glyphs ∧ v.courses = 5 ∧ a.size = 48.0 ∧
      ∃ before n between, IsBeforeStave (Line.tokenize source) 0 before ∧ n.line = .stave ∧
        (∀ m ∈ between, m.line.beginsStave = false) ∧
        IsBeforeLetter (Line.tokenize source) 0 a.chord (before ++ n :: between) ∧
        v.courseSpacing = lengthAfter .courseSpacing 10.0 before ∧
        v.courses = countedCourses before ∧
        a.size = 0.8 * lengthAfter .courseSpacing 10.0 (before ++ n :: between) *
          Scalar.count (countedCourses (before ++ n :: between)) ∧
        ((∀ m ∈ between, m.line.KeepsCourses Float) →
          a.size = 0.8 * v.courseSpacing * Scalar.count v.courses) := by
  intro source
  obtain ⟨d, v, a, hd, hv, ha, -, hcourses, hsize⟩ := letter_behind_count
  exact ⟨d, v, a, hd, hv, ha, hcourses, hsize, letters_of_parse hd hv ha⟩

/-- A letter is not always as large as its stave asks for. -/
theorem exists_letter_off_size : ¬ ∀ (source : String) (d : Document Float) (k : Nat)
    (v : Stave Float) (a : Alfabeto Float), parse source = .ok d → d.staves[k]? = some v →
      .alfabeto a ∈ v.glyphs → a.size = 0.8 * v.courseSpacing * Scalar.count v.courses := by
  intro hall
  obtain ⟨d, v, a, hd, hv, ha, hspacing, hcourses, hsize⟩ := letter_behind_count
  have hletter := hall _ d 0 v a hd hv ha
  rw [hsize, hspacing, hcourses] at hletter
  exact absurd hletter (by decide +kernel)

end Score

end Tablature
