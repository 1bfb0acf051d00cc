import Tablature.Proofs.Act

/-!
# What a line does to a score

`Score.Wrote` says once what a line that can be written does: it begins a page,
begins a stave, writes a heading, writes on the current stave, or changes the
layout. What holds of every score is derived from it.

* `step_of_currentStave`: what a line does to a score is what it does to its stave;
* `wrote_of_step`: every line that can be written does one of these;
* `feed_cases`: a line that cannot be written leaves the score alone or writes
  some acts on the current stave;
* `Score.Invariant`: what has to be shown of a property of layouts and one of pages
  for them to hold of every score that lines write, whether all of them can be
  written (`Invariant.stepAll`) or not (`Invariant.feedAll`);
* `Page.Invariant`, `Page.Invariant.ofStaves`: the same for a property of pages or
  of staves that does not depend on the layout.
-/

namespace Tablature

namespace Line

/-- Whether the line begins a page. -/
def beginsPage : Line → Bool
  | page _ => true
  | _ => false

/-- Whether the line begins a stave. -/
def beginsStave : Line → Bool
  | stave => true
  | _ => false

/-- Whether the line is written on the current stave. -/
def isOnStave : Line → Bool
  | timeSignature _ | barline _ _ | barberpole _ | notes _ _ | strum _ | alfabeto _ | sectionSign
  | blank => true
  | _ => false

/-- Whether the line concerns no page: a directive, or nothing at all. -/
def isOffPage : Line → Bool
  | setting _ _ | courses _ | flag _ | fretMap _ | comment | ignored => true
  | _ => false

theorem begins_of_isOnStave {line : Line} (h : line.isOnStave = true) :
    line.beginsPage = false ∧ line.beginsStave = false := by
  cases line <;> first | exact ⟨rfl, rfl⟩ | cases h

theorem begins_of_isOffPage {line : Line} (h : line.isOffPage = true) :
    line.beginsPage = false ∧ line.beginsStave = false ∧ line.isOnStave = false := by
  cases line <;> first | exact ⟨rfl, rfl, rfl⟩ | cases h

end Line

/-- A member of a list with one more at its end is a member of the list, or the last. -/
theorem getElem?_concat_eq_some {β : Type} {xs : List β} {x y : β} {i : Nat}
    (h : (xs ++ [x])[i]? = some y) : xs[i]? = some y ∨ i = xs.length ∧ y = x := by
  rw [List.getElem?_append] at h
  split at h
  · exact .inl h
  · obtain ⟨hi, e⟩ := List.getElem?_eq_some_iff.1 h
    rw [List.length_singleton] at hi
    simp only [List.getElem_singleton] at e
    exact .inr ⟨by omega, e.symm⟩

section

variable {kind : Line → Bool} {lines : List NumberedLine} {n : NumberedLine}

/-- A line of the kind that is counted adds one to the count, and any other line nothing. -/
theorem countP_concat_of_pos (hn : kind n.line = true) :
    (lines ++ [n]).countP (kind ·.line) = lines.countP (kind ·.line) + 1 := by
  rw [List.countP_append, List.countP_singleton, if_pos hn]

theorem countP_concat_of_neg (hn : kind n.line = false) :
    (lines ++ [n]).countP (kind ·.line) = lines.countP (kind ·.line) := by
  rw [List.countP_append, List.countP_singleton, hn]
  rfl

end

variable {α : Type}

namespace Score

theorem argument_eq_ok {β : Type} {n : NumberedLine} {r : Except Refusal β} {b : β} :
    argument (α := α) n r = .ok b ↔ r = .ok b := by
  cases r with
  | ok c =>
    change (Except.ok c : Except (Stop α) β) = .ok b ↔ _
    simp
  | error e => constructor <;> nofun

theorem pageFor_eq_ok {s : Score α} {n : NumberedLine} {p : Page α} :
    s.pageFor n = .ok p ↔ s.document.currentPage? = some p := by
  unfold pageFor
  cases s.document.currentPage? <;> simp

theorem staveFor_eq_ok {s : Score α} {n : NumberedLine} {v : Stave α} :
    s.staveFor n = .ok v ↔ s.document.currentStave? = some v := by
  unfold staveFor Document.currentStave?
  rw [bind_eq_ok]
  simp only [pageFor_eq_ok, Option.bind_eq_some_iff]
  refine exists_congr fun p => and_congr_right fun _ => ?_
  cases p.currentStave? <;> simp

end Score

namespace Page

@[simp] theorem setCurrentStave_setCurrentStave (p : Page α) (v w : Stave α) :
    (p.setCurrentStave v).setCurrentStave w = p.setCurrentStave w := by
  simp [setCurrentStave]

/-- Changing the last stave changes nothing that does not tell the two staves apart. -/
theorem map_setCurrentStave {β : Type} {f : Stave α → β} {p : Page α} {v w : Stave α}
    (hv : p.currentStave? = some v) (h : f w = f v) :
    (p.setCurrentStave w).staves.map f = p.staves.map f := by
  obtain ⟨init, e⟩ := List.getLast?_eq_some_iff.1 hv
  simp only [setCurrentStave, e, List.dropLast_concat, List.map_append, List.map_cons, h]

theorem setCurrentStave_self {p : Page α} {v : Stave α} (h : p.currentStave? = some v) :
    p.setCurrentStave v = p := by
  obtain ⟨init, e⟩ := List.getLast?_eq_some_iff.1 h
  simp only [setCurrentStave, e, List.dropLast_concat]
  rw [← e]

end Page

/-- Changing the last page changes nothing that does not tell the two pages apart. -/
theorem Document.map_setCurrentPage {β : Type} {f : Page α → β} {d : Document α} {p q : Page α}
    (hp : d.currentPage? = some p) (h : f q = f p) :
    (d.setCurrentPage q).pages.map f = d.pages.map f := by
  obtain ⟨init, e⟩ := List.getLast?_eq_some_iff.1 hp
  simp only [setCurrentPage, e, List.dropLast_concat, List.map_append, List.map_cons, h]

/-- The current stave is that of the current page, and to set it is to set that page. -/
theorem Document.exists_currentPage {d : Document α} {v : Stave α} (hv : d.currentStave? = some v) :
    ∃ p, d.currentPage? = some p ∧ p.currentStave? = some v ∧
      ∀ w, d.setCurrentStave w = d.setCurrentPage (p.setCurrentStave w) := by
  obtain ⟨p, hp, hv⟩ := Option.bind_eq_some_iff.1 hv
  exact ⟨p, hp, hv, fun w => by simp only [setCurrentStave, hp]⟩

theorem Document.setCurrentPage_self {d : Document α} {p : Page α} (h : d.currentPage? = some p) :
    d.setCurrentPage p = d := by
  obtain ⟨init, e⟩ := List.getLast?_eq_some_iff.1 h
  simp only [setCurrentPage, e, List.dropLast_concat]
  rw [← e]

theorem Document.setCurrentStave_self {d : Document α} {v : Stave α}
    (h : d.currentStave? = some v) : d.setCurrentStave v = d := by
  obtain ⟨p, hp, hv, hset⟩ := exists_currentPage h
  rw [hset, Page.setCurrentStave_self hv, setCurrentPage_self hp]

theorem Document.forall_setCurrentPage {Q : Page α → Prop} {d : Document α}
    (hd : ∀ p ∈ d.pages, Q p) {q : Page α} (hq : Q q) : ∀ p ∈ (d.setCurrentPage q).pages, Q p := by
  intro p hp
  rcases List.mem_append.1 hp with hp | hp
  · exact hd p (List.dropLast_subset _ hp)
  · rw [List.mem_singleton.1 hp]; exact hq

variable [Scalar α]

/-- Only a page without room takes no stave. -/
theorem Page.append_eq (p : Page α) (v : Stave α) :
    p.append v =
      if p.staveLength ≤ 0.0 then .error (.fault (.degenerateStave p.number p.staveLength))
      else .ok { p with staves := p.staves ++
        [v.moveTo p.leftMargin (p.staveY p.staves.length v.height) p.staveLength] } := by
  simp [append, putStave]

/-- A stave is appended where there is room for one. -/
theorem Page.append_eq_ok {p q : Page α} {v : Stave α} :
    p.append v = .ok q ↔ ¬ p.staveLength ≤ 0.0 ∧
      q = { p with staves := p.staves ++
        [v.moveTo p.leftMargin (p.staveY p.staves.length v.height) p.staveLength] } := by
  rw [append_eq]
  split <;> simp_all [eq_comm]

/-- The layout after a line. Only directives change it. -/
def Layout.obey (l : Layout α) : Line → Except Refusal (Layout α)
  | .setting setting value => l.set setting value
  | .courses list => l.setCourses list
  | .flag flag => .ok (l.setFlag flag)
  | .fretMap list => l.setFretMap list
  | _ => .ok l

namespace Layout

/-! ## Values that are put in or refused -/

theorem set_length (l : Layout α) (s : LengthSetting) (value : String) :
    l.set (.length s) value = (readLength (Text.trim value.toList)).map fun v => l.setLength v s :=
  Work.outcome_ofExcept_modify _ _

theorem set_count (l : Layout α) (s : CountSetting) (value : String) :
    l.set (.count s) value = (readCount (Text.trim value.toList)).map fun n => l.setCount n s :=
  Work.outcome_ofExcept_modify _ _

theorem set_face (l : Layout α) (s : FaceSetting) (value : String) :
    l.set (.face s) value = (readFace (Text.trim value.toList)).map fun face => l.setFace face s :=
  Work.outcome_ofExcept_modify _ _

omit [Scalar α] in
theorem setCourses_eq (l : Layout α) (list : String) :
    l.setCourses list = (Text.words list.toList).mapM readCourse >>= fun courses =>
      if courses.isEmpty then .error .noCourses
      else .ok { l with courses, numberOfCourses := courses.length } := by
  simp [setCourses, putCourses]

omit [Scalar α] in
theorem setFretMap_eq (l : Layout α) (list : String) :
    l.setFretMap list =
      match Text.words list.toList with
      | [] => .ok l
      | words => (words.mapM readFretPair).map fun pairs => { l with fretMap := .ofList pairs } := by
  unfold setFretMap putFretMap
  cases Text.words list.toList with
  | nil => rfl
  | cons word words => exact Work.outcome_ofExcept_modify _ _

/-! A value that is refused leaves the layout as it was. -/

theorem spares_put (s : Setting) (value : String) (l : Layout α) (r : Refusal) :
    (put s value).Spares r l := by
  unfold put
  cases s <;> exact .ofExcept_bind fun _ _ => .of_ok rfl

omit [Scalar α] in
theorem spares_putCourses (list : String) (l : Layout α) (r : Refusal) :
    (putCourses list).Spares r l := by
  refine .ofExcept_bind fun courses _ => ?_
  split
  · exact .throw _
  · exact .of_ok rfl

omit [Scalar α] in
theorem spares_putFretMap (list : String) (l : Layout α) (r : Refusal) :
    (putFretMap list).Spares r l := by
  unfold putFretMap
  split
  · exact .of_ok rfl
  · exact .ofExcept_bind fun _ _ => .of_ok rfl

end Layout

@[simp] theorem Stave.cursor_justify (v : Stave α) : v.justify.cursor = v.cursor := by
  unfold Stave.justify
  split <;> rfl

/-- A line that is not written on staves leaves them alone. -/
theorem Stave.writeLine_of_not_isOnStave {l : Layout α} {v : Stave α} {n : NumberedLine}
    (h : n.line.isOnStave = false) : v.writeLine l n = .ok v := by
  obtain ⟨number, line⟩ := n
  cases line <;> first | rfl | cases h

namespace Score

omit [Scalar α] in
theorem outcome_onLayout (n : NumberedLine) (w : Work Refusal (Layout α) Unit) (s : Score α) :
    (onLayout n w).outcome s = (argument n (w.outcome s.layout)).map s.setLayout := by
  simp [onLayout, argument]

omit [Scalar α] in
theorem outcome_onPage (n : NumberedLine) (w : Work (Stop α) (Page α) Unit) (s : Score α) :
    (onPage n w).outcome s = s.pageFor n >>= fun p => (w.outcome p).map s.setPage := by
  simp [onPage]

omit [Scalar α] in
theorem outcome_onStave (n : NumberedLine) (w : Work (Stop α) (Stave α) Unit) (s : Score α) :
    (onStave n w).outcome s = s.staveFor n >>= fun v => (w.outcome v).map s.setStave := by
  simp [onStave]

/-- What comes of a line, by the kind of line. -/
theorem step_eq (s : Score α) (n : NumberedLine) :
    s.step n =
      match n.line with
      | .page text => (argument n (readPageNumber text)).map s.addPage
      | .stave => s.pageFor n >>= fun p =>
        (p.append (.blank s.layout (s.beforeFirstStave p))).map s.setPage
      | .title text => (s.pageFor n).map fun p => s.setPage (p.setTitle s.layout text)
      | .composer text => (s.pageFor n).map fun p => s.setPage (p.setComposer s.layout text)
      | .timeSignature figures => argument n (readMeter figures) >>= fun meter =>
        (s.staveFor n).map fun v =>
          s.setStave ((v.place s.layout (.timeSignature v.cursor meter)).advance meterSlots)
      | .barline _ _ | .barberpole _ | .notes _ _ | .strum _ | .alfabeto _ | .sectionSign =>
        s.staveFor n >>= fun v => (v.writeLine s.layout n).map s.setStave
      | .blank => .ok (s.document.currentStave?.elim s fun v => s.setStave (v.advance 1))
      | .setting _ _ | .courses _ | .flag _ | .fretMap _ | .comment | .ignored =>
        (argument n (s.layout.obey n.line)).map s.setLayout := by
  have hmark {v : Stave α} {m : Nat → Mark} (hm : ∀ slot count, (m slot).courses count = []) :
      (Stave.putMark s.layout m).outcome v = .ok (v.place s.layout (m v.cursor)) :=
    Stave.outcome_putMark_of_offCourse hm
  have hstave {w : Work (Stop α) (Stave α) Unit} (hw : ∀ v, w.outcome v = v.writeLine s.layout n) :
      (onStave n w).outcome s = s.staveFor n >>= fun v => (v.writeLine s.layout n).map s.setStave :=
    (outcome_onStave n w s).trans (bind_congr fun v => by rw [hw])
  obtain ⟨number, line⟩ := n
  unfold step put
  rw [Work.outcome_get_bind]
  cases line with
  | page text => exact Work.outcome_ofExcept_modify _ _
  | stave => exact outcome_onPage _ _ s
  | title text | composer text =>
    refine (outcome_onPage _ _ s).trans ?_
    cases s.pageFor _ <;> rfl
  | timeSignature figures =>
    refine (Work.outcome_ofExcept_bind _ _).trans (bind_congr fun meter => ?_)
    have hw (v : Stave α) : Work.outcome (do
        Stave.putMark s.layout (.timeSignature · meter)
        modify fun v => v.advance meterSlots) v =
        .ok ((v.place s.layout (.timeSignature v.cursor meter)).advance meterSlots) := by
      rw [Work.outcome_bind, hmark fun _ _ => rfl]
      rfl
    rw [outcome_onStave]
    simp only [hw]
    cases s.staveFor _ <;> rfl
  | barline kind label =>
    refine hstave fun v => (Work.outcome_bind _ _).trans ?_
    rw [hmark fun _ _ => rfl]
    rfl
  | barberpole text =>
    refine hstave fun v => (Work.outcome_ofExcept_bind _ _).trans (bind_congr fun range => ?_)
    rw [Stave.outcome_putMark, Grid.counts_eq]
    rfl
  | notes rhythm tokens => exact hstave fun v => Stave.outcome_putNotes _ _ v rhythm tokens
  | strum _ | alfabeto _ | sectionSign => exact hstave fun v => hmark fun _ _ => rfl
  | blank =>
    dsimp only
    cases s.document.currentStave? <;> rfl
  | setting _ _ | courses _ | fretMap _ => exact outcome_onLayout _ _ s
  | flag _ | comment | ignored => rfl

/-- What a line that can be written makes of a score. -/
inductive Wrote (s : Score α) (n : NumberedLine) : Score α → Prop where
  | page {text : String} {number : Nat} : n.line = .page text →
    readPageNumber text = .ok number → Wrote s n (s.addPage number)
  | stave {p q : Page α} : n.line = .stave → s.document.currentPage? = some p →
    p.append (.blank s.layout (s.beforeFirstStave p)) = .ok q → Wrote s n (s.setPage q)
  | title {p : Page α} {text : String} : n.line = .title text →
    s.document.currentPage? = some p → Wrote s n (s.setPage (p.setTitle s.layout text))
  | composer {p : Page α} {text : String} : n.line = .composer text →
    s.document.currentPage? = some p → Wrote s n (s.setPage (p.setComposer s.layout text))
  | onStave {v w : Stave α} : n.line.isOnStave = true → s.document.currentStave? = some v →
    v.writeLine s.layout n = .ok w → Wrote s n (s.setStave w)
  /-- An empty line before the first stave of a page. -/
  | blank : n.line = .blank → s.document.currentStave? = none → Wrote s n s
  | offPage {l : Layout α} : n.line.isOffPage = true → s.layout.obey n.line = .ok l →
    Wrote s n { s with layout := l }

/-- On a stave, a line does to the score what `Stave.writeLine` does to the stave. -/
theorem step_of_currentStave {s : Score α} {n : NumberedLine} (hn : n.line.isOnStave = true)
    {v : Stave α} (hv : s.document.currentStave? = some v) :
    s.step n = (v.writeLine s.layout n).map s.setStave := by
  have hs : s.staveFor n = .ok v := staveFor_eq_ok.2 hv
  obtain ⟨number, line⟩ := n
  rw [step_eq]
  cases line with
  | timeSignature figures =>
    simp only [hs, Stave.writeLine]
    cases argument (α := α) ⟨number, .timeSignature figures⟩ (readMeter figures) <;> rfl
  | barline _ _ | barberpole _ | notes _ _ | strum _ | alfabeto _ | sectionSign =>
    simp only [hs]
    rfl
  | blank =>
    simp only [hv]
    rfl
  | _ => cases hn

/-- Only an empty line can be written where there is no stave to write it on. -/
theorem currentStave_of_step {s s' : Score α} {n : NumberedLine} (h : s.step n = .ok s')
    (hn : n.line.isOnStave = true) (hblank : n.line ≠ .blank) :
    ∃ v, s.document.currentStave? = some v := by
  obtain ⟨number, line⟩ := n
  rw [step_eq] at h
  cases line with
  | timeSignature figures =>
    obtain ⟨meter, -, h⟩ := bind_eq_ok.1 h
    obtain ⟨v, hv, -⟩ := map_eq_ok.1 h
    exact ⟨v, staveFor_eq_ok.1 hv⟩
  | barline _ _ | barberpole _ | notes _ _ | strum _ | alfabeto _ | sectionSign =>
    obtain ⟨v, hv, -⟩ := bind_eq_ok.1 h
    exact ⟨v, staveFor_eq_ok.1 hv⟩
  | blank => exact absurd rfl hblank
  | _ => cases hn

theorem wrote_of_step_onStave {s s' : Score α} {n : NumberedLine} (h : s.step n = .ok s')
    (hn : n.line.isOnStave = true) {v : Stave α} (hv : s.document.currentStave? = some v) :
    s.Wrote n s' := by
  rw [step_of_currentStave hn hv] at h
  obtain ⟨w, hw, rfl⟩ := map_eq_ok.1 h
  exact .onStave hn hv hw

/-- Every line that can be written does one of the things that `Wrote` lists. -/
theorem wrote_of_step {s s' : Score α} {n : NumberedLine} (h : s.step n = .ok s') :
    s.Wrote n s' := by
  obtain ⟨number, line⟩ := n
  have hstep := h
  rw [step_eq] at h
  cases line with
  | page text =>
    obtain ⟨k, hk, rfl⟩ := map_eq_ok.1 h
    exact .page rfl (argument_eq_ok.1 hk)
  | stave =>
    obtain ⟨p, hp, h⟩ := bind_eq_ok.1 h
    obtain ⟨q, hq, rfl⟩ := map_eq_ok.1 h
    exact .stave rfl (pageFor_eq_ok.1 hp) hq
  | timeSignature _ | barline _ _ | barberpole _ | notes _ _ | strum _ | alfabeto _ | sectionSign =>
    obtain ⟨v, hv⟩ := currentStave_of_step hstep rfl nofun
    exact wrote_of_step_onStave hstep rfl hv
  | blank =>
    cases hv : s.document.currentStave? with
    | some v => exact wrote_of_step_onStave hstep rfl hv
    | none =>
      simp only [hv] at h
      cases h
      exact .blank rfl hv
  | title text =>
    obtain ⟨p, hp, rfl⟩ := map_eq_ok.1 h
    exact .title rfl (pageFor_eq_ok.1 hp)
  | composer text =>
    obtain ⟨p, hp, rfl⟩ := map_eq_ok.1 h
    exact .composer rfl (pageFor_eq_ok.1 hp)
  | setting _ _ | courses _ | flag _ | fretMap _ | comment | ignored =>
    obtain ⟨l, hl, rfl⟩ := map_eq_ok.1 h
    exact .offPage rfl (argument_eq_ok.1 hl)

/-! ## Lines that cannot be written -/

section

variable {s : Score α} {n : NumberedLine} {e : Stop α}

omit [Scalar α]

theorem spares_onLayout {w : Work Refusal (Layout α) Unit} (hw : ∀ r, w.Spares r s.layout) :
    (onLayout n w).Spares e s :=
  .get_bind (.within (.adaptExcept hw) rfl)

theorem spares_onPage {w : Work (Stop α) (Page α) Unit} (hw : ∀ p, w.Spares e p) :
    (onPage n w).Spares e s :=
  .get_bind (.ofExcept_bind fun p hp => .within (hw p)
    (congrArg (Score.mk _) (Document.setCurrentPage_self (pageFor_eq_ok.1 hp))))

theorem spares_onStave {w : Work (Stop α) (Stave α) Unit} (hw : ∀ v, w.Spares e v) :
    (onStave n w).Spares e s :=
  .get_bind (.ofExcept_bind fun v hv => .within (hw v)
    (congrArg (Score.mk _) (Document.setCurrentStave_self (staveFor_eq_ok.1 hv))))

end

/-- A line other than a note line leaves the score as it was, whatever stops it. -/
theorem spares_put {n : NumberedLine} (hn : ∀ rhythm tokens, n.line ≠ .notes rhythm tokens)
    (s : Score α) (e : Stop α) : (put n).Spares e s := by
  have hmark (m : Nat → Mark) (v : Stave α) := Stave.spares_putMark s.layout m v e
  obtain ⟨number, line⟩ := n
  refine .get_bind ?_
  cases line with
  | page text => exact .ofExcept_bind fun number _ => .of_ok rfl
  | stave =>
    refine spares_onPage fun p => .get_bind (.get_bind ?_)
    split
    · exact .throw _
    · exact .of_ok rfl
  | timeSignature figures =>
    exact .ofExcept_bind fun meter _ => spares_onStave fun v => .bind (hmark _ v) fun u => ⟨_, rfl⟩
  | barline kind label => exact spares_onStave fun v => .bind (hmark _ v) fun u => ⟨_, rfl⟩
  | barberpole text => exact spares_onStave fun v => .get_bind (.ofExcept_bind fun _ _ => hmark _ v)
  | notes rhythm tokens => exact absurd rfl (hn rhythm tokens)
  | strum _ | alfabeto _ | sectionSign => exact spares_onStave (hmark _)
  | title _ | composer _ => exact spares_onPage fun p => .of_ok rfl
  | blank =>
    dsimp only
    cases s.document.currentStave? with
    | some v => exact .of_ok rfl
    | none => exact .of_ok rfl
  | setting setting value => exact spares_onLayout fun r => Layout.spares_put setting value _ r
  | courses list => exact spares_onLayout fun r => Layout.spares_putCourses list _ r
  | fretMap list => exact spares_onLayout fun r => Layout.spares_putFretMap list _ r
  | flag _ | comment | ignored => exact .of_ok rfl

/-- What a note line leaves behind is what it leaves behind on the current stave. -/
theorem after_put_notes {s : Score α} {n : NumberedLine} {rhythm : Option Rhythm} {tokens : String}
    (hn : n.line = .notes rhythm tokens) :
    (put n).after s = s.document.currentStave?.elim s fun v =>
      s.setStave ((Stave.putNotes s.layout n.number rhythm tokens).after v) := by
  have hput : (put n).after s =
      (onStave n (Stave.putNotes s.layout n.number rhythm tokens)).after s := by
    rw [put, Work.after_get_bind, hn]
  rw [hput, onStave, Work.after_get_bind, Work.after_ofExcept_bind]
  cases hs : s.staveFor n with
  | ok v =>
    rw [staveFor_eq_ok.1 hs]
    exact Work.after_within v setStave _
  | error e =>
    have hv : s.document.currentStave? = none :=
      Option.eq_none_iff_forall_ne_some.2 fun v hv => by
        rw [staveFor_eq_ok.2 hv] at hs
        cases hs
    rw [hv]
    rfl

section

variable {s s' : Score α} {n : NumberedLine} {e : Stop α}

theorem feed_of_ok (h : s.step n = .ok s') : s.feed n = (s', none) := by
  have hafter : (put n).after s = s' := Work.after_of_outcome h
  rw [feed, hafter, Work.stop?_eq_none.2 (hafter ▸ h)]

/-- A line is fed until the same stops it that stops it from being written. -/
theorem feed_snd_eq_some : (s.feed n).2 = some e ↔ s.step n = .error e := Work.stop?_eq_some

theorem feed_of_error (hn : ∀ rhythm tokens, n.line ≠ .notes rhythm tokens)
    (h : s.step n = .error e) : s.feed n = (s, some e) := by
  rw [feed, (spares_put hn s e).after_eq h, Work.stop?_eq_some.2 h]

end

/-- Whether a line can be written or not, it does one of the things that `Wrote` lists,
writes some acts on the current stave, or does nothing. -/
theorem feed_cases (s : Score α) (n : NumberedLine) :
    s.Wrote n (s.feed n).1 ∨ (s.feed n).1 = s ∨ ∃ v w, s.document.currentStave? = some v ∧
      Stave.Acts s.layout v w ∧ (s.feed n).1 = s.setStave w := by
  cases h : s.step n with
  | ok s' => rw [feed_of_ok h]; exact .inl (wrote_of_step h)
  | error e =>
    refine .inr ?_
    by_cases hn : ∃ rhythm tokens, n.line = .notes rhythm tokens
    · obtain ⟨rhythm, tokens, hn⟩ := hn
      have hafter : (s.feed n).1 = _ := after_put_notes hn
      cases hv : s.document.currentStave? with
      | none => exact .inl (by rw [hafter, hv]; rfl)
      | some v => exact .inr ⟨v, _, rfl, Stave.acts_putNotes _ _ _ _ v, by rw [hafter, hv]; rfl⟩
    · rw [feed_of_error (fun rhythm tokens hn' => hn ⟨rhythm, tokens, hn'⟩) h]
      exact .inl rfl

omit [Scalar α] in
/-- Writing on the current stave changes nothing of the pages but their staves. -/
theorem map_setStave {β : Type} {f : Page α → β}
    (hf : ∀ (p : Page α) staves, f { p with staves } = f p) (s : Score α) (w : Stave α) :
    (s.setStave w).document.pages.map f = s.document.pages.map f := by
  simp only [setStave, Document.setCurrentStave]
  split
  · rfl
  · rename_i p hp
    exact Document.map_setCurrentPage hp (hf p _)

/-- A line that can be written begins a page, or changes nothing of the pages but their headings
and their staves. -/
theorem Wrote.map_pages {β : Type} {f : Page α → β}
    (hf : ∀ (p : Page α) title composer staves, f { p with title, composer, staves } = f p)
    {s s' : Score α} {n : NumberedLine} (h : s.Wrote n s') :
    (n.line.beginsPage = true ∧ ∃ number, s' = s.addPage number) ∨
      s'.document.pages.map f = s.document.pages.map f := by
  cases h with
  | page h _ => exact .inl ⟨by rw [h]; rfl, _, rfl⟩
  | stave _ hp hq =>
    obtain ⟨-, rfl⟩ := Page.append_eq_ok.1 hq
    exact .inr (Document.map_setCurrentPage hp (hf _ _ _ _))
  | title _ hp | composer _ hp => exact .inr (Document.map_setCurrentPage hp (hf _ _ _ _))
  | onStave _ _ _ => exact .inr (map_setStave (fun p staves => hf p p.title p.composer staves) _ _)
  | blank _ _ | offPage _ _ => exact .inr rfl

/-- Whether a line can be written or not, it begins a page, or changes nothing of the pages but
their headings and their staves. -/
theorem feed_map_pages {β : Type} {f : Page α → β}
    (hf : ∀ (p : Page α) title composer staves, f { p with title, composer, staves } = f p)
    (s : Score α) (n : NumberedLine) :
    (∃ number, (s.feed n).1 = s.addPage number) ∨
      (s.feed n).1.document.pages.map f = s.document.pages.map f := by
  obtain h | h | ⟨v, w, -, -, e⟩ := s.feed_cases n
  · exact (h.map_pages hf).imp And.right id
  · rw [h]; exact .inr rfl
  · rw [e]; exact .inr (map_setStave (fun p staves => hf p p.title p.composer staves) _ _)

/-- What each line keeps that can be written, a run of them keeps, with the lines written so far
in view. -/
theorem stepAll_induction {P : Score α → List NumberedLine → Prop}
    (hP : ∀ {s s' : Score α} {n : NumberedLine} {lines : List NumberedLine}, s.Wrote n s' →
      P s lines → P s' (lines ++ [n]))
    {s s' : Score α} (before : List NumberedLine) {lines : List NumberedLine}
    (h : s.stepAll lines = .ok s') (hs : P s before) : P s' (before ++ lines) := by
  induction lines generalizing s before with
  | nil =>
    cases h
    rwa [List.append_nil]
  | cons n lines ih =>
    obtain ⟨t, ht, h⟩ := bind_eq_ok.1 h
    rw [List.append_cons]
    exact ih _ h (hP (wrote_of_step ht) hs)

/-- The score after lines that are fed one by one, whether they can be written or not. -/
def feedAll (s : Score α) (lines : List NumberedLine) : Score α :=
  lines.foldl (fun s n => (s.feed n).1) s

end Score

/-- A source that can be parsed is written line by line and then finished. -/
theorem Score.parse_eq_ok {source : String} {d : Document α} :
    parse source = .ok d ↔
      ∃ s : Score α, empty.stepAll (Line.tokenize source) = .ok s ∧ s.finish = d := by
  unfold parse
  cases (empty : Score α).stepAll (Line.tokenize source) <;> simp [Except.map]

/-- What holds of the pages of a score, and is kept when a page is justified, holds of the pages
of the finished document. -/
theorem Score.forall_finish {Q : Page α → Prop} (hQ : ∀ {p : Page α}, Q p → Q p.justify)
    {s : Score α} (hs : ∀ p ∈ s.document.pages, Q p) : ∀ p ∈ s.finish.pages, Q p := by
  intro p hp
  unfold finish at hp
  split at hp
  · obtain ⟨q, hq, rfl⟩ := List.mem_map.1 hp
    exact hQ (hs q hq)
  · exact hs p hp

/-! ## Invariants of scores -/

namespace Score

/-- The layout in force has a property, and every page of the document another. -/
structure Everywhere (P : Layout α → Prop) (Q : Page α → Prop) (s : Score α) : Prop where
  layout : P s.layout
  pages : ∀ p ∈ s.document.pages, Q p

/-- What has to be shown of a property of layouts and one of pages for them to hold everywhere in
every score that lines write. -/
structure Invariant (P : Layout α → Prop) (Q : Page α → Prop) : Prop where
  obey {l l' : Layout α} {line : Line} : P l → l.obey line = .ok l' → P l'
  blank {l : Layout α} (number : Nat) (first : Bool) : P l → Q (.blank l number first)
  append {l : Layout α} {first : Bool} {p q : Page α} : P l → Q p →
    p.append (.blank l first) = .ok q → Q q
  setTitle {p : Page α} (l : Layout α) (text : String) : Q p → Q (p.setTitle l text)
  setComposer {p : Page α} (l : Layout α) (text : String) : Q p → Q (p.setComposer l text)
  act {l : Layout α} {p : Page α} {v w : Stave α} : Q p → p.currentStave? = some v →
    Stave.Act l v w → Q (p.setCurrentStave w)

theorem everywhere_empty {P : Layout α → Prop} {Q : Page α → Prop} (h : P .initial) :
    Everywhere P Q (empty : Score α) :=
  ⟨h, fun p hp => by cases hp⟩

namespace Invariant

variable {P : Layout α → Prop} {Q : Page α → Prop} (hI : Invariant P Q)

include hI

theorem acts {l : Layout α} {p : Page α} {v w : Stave α} (hp : Q p)
    (hv : p.currentStave? = some v) (h : Stave.Acts l v w) : Q (p.setCurrentStave w) := by
  induction h with
  | refl => rw [Page.setCurrentStave_self hv]; exact hp
  | tail _ h ih =>
    rw [← Page.setCurrentStave_setCurrentStave]
    exact hI.act ih (Page.currentStave?_setCurrentStave _ _) h

theorem setStave {l : Layout α} {s : Score α} (hs : Everywhere P Q s) {v w : Stave α}
    (hv : s.document.currentStave? = some v) (h : Stave.Acts l v w) :
    Everywhere P Q (s.setStave w) := by
  obtain ⟨p, hp, hv, hset⟩ := Document.exists_currentPage hv
  refine ⟨hs.layout, ?_⟩
  rw [Score.setStave, hset]
  exact Document.forall_setCurrentPage hs.pages
    (hI.acts (hs.pages p (List.mem_of_getLast? hp)) hv h)

theorem wrote {s s' : Score α} {n : NumberedLine} (h : s.Wrote n s')
    (hs : Everywhere P Q s) : Everywhere P Q s' := by
  have hp {p : Page α} (h : s.document.currentPage? = some p) : Q p :=
    hs.pages p (List.mem_of_getLast? h)
  cases h with
  | page _ _ =>
    refine ⟨hs.layout, fun p hp => ?_⟩
    rcases List.mem_append.1 hp with hp | hp
    · exact hs.pages p hp
    · rw [List.mem_singleton.1 hp]; exact hI.blank _ _ hs.layout
  | stave _ h hq =>
    exact ⟨hs.layout, Document.forall_setCurrentPage hs.pages (hI.append hs.layout (hp h) hq)⟩
  | title _ h =>
    exact ⟨hs.layout, Document.forall_setCurrentPage hs.pages (hI.setTitle _ _ (hp h))⟩
  | composer _ h =>
    exact ⟨hs.layout, Document.forall_setCurrentPage hs.pages (hI.setComposer _ _ (hp h))⟩
  | onStave _ hv hw => exact hI.setStave hs hv (Stave.acts_writeLine hw)
  | blank _ _ => exact hs
  | offPage _ hl => exact ⟨hI.obey hs.layout hl, hs.pages⟩

theorem feed {s : Score α} (n : NumberedLine) (hs : Everywhere P Q s) :
    Everywhere P Q (s.feed n).1 := by
  obtain h | h | ⟨v, w, hv, h, e⟩ := s.feed_cases n
  · exact hI.wrote h hs
  · rw [h]; exact hs
  · rw [e]; exact hI.setStave hs hv h

theorem feedAll {s : Score α} (lines : List NumberedLine) (hs : Everywhere P Q s) :
    Everywhere P Q (s.feedAll lines) := by
  induction lines generalizing s with
  | nil => exact hs
  | cons n lines ih => exact ih (hI.feed n hs)

theorem stepAll {s s' : Score α} {lines : List NumberedLine} (h : s.stepAll lines = .ok s')
    (hs : Everywhere P Q s) : Everywhere P Q s' :=
  stepAll_induction (P := fun s _ => Everywhere P Q s) hI.wrote [] h hs

/-- A property that a stave has when it is begun, given those of the layout and of its page, and
that acts keep, holds of every stave besides. -/
theorem and_staves {S : Stave α → Prop}
    (hnew : ∀ {l : Layout α} {p : Page α} (first : Bool) (y : α), P l → Q p →
      ¬ p.staveLength ≤ 0.0 → S ((Stave.blank l first).moveTo p.leftMargin y p.staveLength))
    (hact : ∀ {l : Layout α} {v w : Stave α}, Stave.Act l v w → S v → S w) :
    Invariant P fun p => Q p ∧ ∀ v ∈ p.staves, S v where
  obey := hI.obey
  blank number first hl := ⟨hI.blank number first hl, fun v hv => by cases hv⟩
  append hl hp h := by
    refine ⟨hI.append hl hp.1 h, ?_⟩
    obtain ⟨hlength, rfl⟩ := Page.append_eq_ok.1 h
    intro v hv
    rcases List.mem_append.1 hv with hv | hv
    · exact hp.2 v hv
    · rw [List.mem_singleton.1 hv]; exact hnew _ _ hl hp.1 hlength
  setTitle l text hp := ⟨hI.setTitle l text hp.1, hp.2⟩
  setComposer l text hp := ⟨hI.setComposer l text hp.1, hp.2⟩
  act hp hv h := by
    refine ⟨hI.act hp.1 hv h, fun u hu => ?_⟩
    rcases List.mem_append.1 hu with hu | hu
    · exact hp.2 u (List.dropLast_subset _ hu)
    · rw [List.mem_singleton.1 hu]; exact hact h (hp.2 _ (List.mem_of_getLast? hv))

end Invariant

end Score

/-! ## Invariants of pages -/

namespace Page

/-- What has to be shown of a property of pages for it to hold of every page that lines
write. -/
structure Invariant (Q : Page α → Prop) : Prop where
  blank (l : Layout α) (number : Nat) (first : Bool) : Q (.blank l number first)
  append {l : Layout α} {first : Bool} {p q : Page α} : Q p →
    p.append (.blank l first) = .ok q → Q q
  setTitle {p : Page α} (l : Layout α) (text : String) : Q p → Q (p.setTitle l text)
  setComposer {p : Page α} (l : Layout α) (text : String) : Q p → Q (p.setComposer l text)
  act {l : Layout α} {p : Page α} {v w : Stave α} : Q p → p.currentStave? = some v →
    Stave.Act l v w → Q (p.setCurrentStave w)

namespace Invariant

variable {Q : Page α → Prop} (hQ : Invariant Q)

include hQ

/-- Such a property does not depend on the layout. -/
theorem toScore : Score.Invariant (fun _ => True) Q where
  obey _ _ := trivial
  blank number first _ := hQ.blank _ number first
  append _ := hQ.append
  setTitle := hQ.setTitle
  setComposer := hQ.setComposer
  act := hQ.act

theorem feedAll {s : Score α} (lines : List NumberedLine) (hs : ∀ p ∈ s.document.pages, Q p) :
    ∀ p ∈ (s.feedAll lines).document.pages, Q p :=
  (hQ.toScore.feedAll lines ⟨trivial, hs⟩).pages

theorem stepAll {s s' : Score α} {lines : List NumberedLine} (h : s.stepAll lines = .ok s')
    (hs : ∀ p ∈ s.document.pages, Q p) : ∀ p ∈ s'.document.pages, Q p :=
  (hQ.toScore.stepAll h ⟨trivial, hs⟩).pages

omit hQ in
/-- A property that a stave has when it is begun, and that acts keep, holds of every stave. -/
theorem ofStaves {P : Stave α → Prop}
    (hnew : ∀ (l : Layout α) (first : Bool) (x y length : α),
      P ((Stave.blank l first).moveTo x y length))
    (hact : ∀ {l : Layout α} {v w : Stave α}, Stave.Act l v w → P v → P w) :
    Invariant fun p => ∀ v ∈ p.staves, P v where
  blank _ _ _ := fun v hv => by cases hv
  append hp h := by
    obtain ⟨-, rfl⟩ := append_eq_ok.1 h
    intro v hv
    rcases List.mem_append.1 hv with hv | hv
    · exact hp v hv
    · rw [List.mem_singleton.1 hv]; exact hnew _ _ _ _ _
  setTitle _ _ hp := hp
  setComposer _ _ hp := hp
  act hp hv h := by
    intro u hu
    rcases List.mem_append.1 hu with hu | hu
    · exact hp u (List.dropLast_subset _ hu)
    · rw [List.mem_singleton.1 hu]; exact hact h (hp _ (List.mem_of_getLast? hv))

end Invariant

end Page

end Tablature
