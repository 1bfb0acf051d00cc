import Mathlib.Data.List.Induction
import Tablature.Proofs.Beginning
import Tablature.Proofs.Tuning

/-!
# Labels and courses

The layout has a list of courses and a number of courses. A line that lists the
courses sets both, a line that counts them sets the number alone. A stave has as
many lines as the number says, and its labels are those of the list: they go
together only if the last word on both was the same.

* `listedCourses`, `countedCourses`: what the lines before a stave say of the two;
* `CourseLabels.Fits`: each label is on the line of a course, and each course has one;
* `fits_iff`: labels fit if there are as many as courses;
* `labels_of_parse`: when the labels of a stave fit it.
-/

namespace Tablature

/-! ## Lines for courses -/

/-- How many courses the line lists. -/
def Line.listsCourses? : Line → Option Nat
  | courses list => some (Text.words list.toList).length
  | _ => none

/-- How many courses a stave has after the line. -/
def Line.countsCourses? : Line → Option Nat
  | courses list => some (Text.words list.toList).length
  | setting (.count .numberOfCourses) value => (readCount (Text.trim value.toList)).toOption
  | _ => none

/-- How many courses the last line lists that lists any; five if there is none. -/
def listedCourses (lines : List NumberedLine) : Nat :=
  (lines.filterMap fun n => n.line.listsCourses?).getLast?.getD 5

/-- How many courses the last line gives that lists or counts them; five if there is none. -/
def countedCourses (lines : List NumberedLine) : Nat :=
  (lines.filterMap fun n => n.line.countsCourses?).getLast?.getD 5

/-- Behind each line that counts the courses, another one lists them. -/
def CoursesRelisted (lines : List NumberedLine) : Prop :=
  ∀ before m after value, lines = before ++ m :: after →
    m.line = .setting (.count .numberOfCourses) value → ∃ n ∈ after, ∃ list, n.line = .courses list

theorem CoursesRelisted.of_concat {lines : List NumberedLine} {n : NumberedLine}
    (h : CoursesRelisted (lines ++ [n])) (hn : ∀ list, n.line ≠ .courses list) :
    CoursesRelisted lines := by
  rintro before m after value rfl hm
  obtain ⟨k, hk, list, hlist⟩ := h before m (after ++ [n]) value (by simp) hm
  rcases List.mem_append.1 hk with hk | hk
  · exact ⟨k, hk, list, hlist⟩
  · rw [List.mem_singleton.1 hk] at hlist
    exact absurd hlist (hn list)

theorem Line.countsCourses?_eq (line : Line) : line.countsCourses? = line.listsCourses? ∨
    ∃ value, line = .setting (.count .numberOfCourses) value := by
  cases line with
  | setting s value =>
    cases s with
    | count s =>
      cases s with
      | numberOfCourses => exact .inr ⟨value, rfl⟩
      | slots => exact .inl rfl
    | _ => exact .inl rfl
  | _ => exact .inl rfl

/-- Where the courses are listed behind each line that counts them, the list and the number
agree. -/
theorem CoursesRelisted.listedCourses_eq {lines : List NumberedLine} (h : CoursesRelisted lines) :
    listedCourses lines = countedCourses lines := by
  unfold listedCourses countedCourses
  refine congrArg (Option.getD · 5) ?_
  -- from the end: behind the last list, no line says anything of either
  induction lines using List.reverseRecOn with
  | nil => rfl
  | append_singleton lines n ih =>
    have hsame : n.line.countsCourses? = n.line.listsCourses? := by
      refine n.line.countsCourses?_eq.resolve_right ?_
      rintro ⟨value, hn⟩
      obtain ⟨k, hk, -⟩ := h lines n [] value rfl hn
      cases hk
    rw [List.filterMap_append, List.filterMap_append]
    cases hlists : n.line.listsCourses? with
    | some count => simp [hsame, hlists]
    | none =>
      have hn : ∀ list, n.line ≠ .courses list := by
        intro list hlist
        rw [hlist] at hlists
        cases hlists
      simpa [hsame, hlists] using ih (h.of_concat hn)

/-- A tuning has a course for each word. -/
theorem length_of_readTuning {list : String} {courses : List (List String)}
    (h : readTuning list = .ok courses) : courses.length = (Text.words list.toList).length := by
  rw [(courses_of_readTuning h).1, List.length_map]

variable {α : Type} [Scalar α]

namespace Layout

variable {l k : Layout α} {line : Line}

theorem length_courses_of_obey (h : l.obey line = .ok k) :
    k.courses.length = line.listsCourses?.getD l.courses.length := by
  obtain ⟨c, hc, rfl⟩ := tells_of_obey h
  cases hc with
  | @length s => cases s <;> rfl
  | @count s => cases s <;> rfl
  | @face s => cases s <;> rfl
  | tuning hlist => exact length_of_readTuning hlist
  | flag f => cases f <;> rfl
  | content hline => cases line <;> first | rfl | cases hline
  | _ => rfl

theorem numberOfCourses_of_obey (h : l.obey line = .ok k) :
    k.numberOfCourses = line.countsCourses?.getD l.numberOfCourses := by
  obtain ⟨c, hc, rfl⟩ := tells_of_obey h
  cases hc with
  | @length s => cases s <;> rfl
  | @count s _ _ hn =>
    cases s with
    | slots => rfl
    | numberOfCourses =>
      rw [Line.countsCourses?, hn]
      rfl
  | @face s => cases s <;> rfl
  | tuning hlist => exact length_of_readTuning hlist
  | flag f => cases f <;> rfl
  | content hline => cases line <;> first | rfl | cases hline
  | _ => rfl

theorem strings_of_obey (h : l.obey line = .ok k) (hl : ∀ strings ∈ l.courses, strings ≠ []) :
    ∀ strings ∈ k.courses, strings ≠ [] := by
  obtain ⟨c, hc, rfl⟩ := tells_of_obey h
  cases hc with
  | @length s => cases s <;> exact hl
  | @count s => cases s <;> exact hl
  | @face s => cases s <;> exact hl
  | tuning hlist => exact fun strings h => ((courses_of_readTuning hlist).2.2 strings h).ne_nil
  | flag f => cases f <;> exact hl
  | _ => exact hl

end Layout

/-! ## Labels on lines -/

/-- A label of a course: the pitch of one of its strings, on its line. -/
def Stave.IsLabel (v : Stave α) (ls : CourseLabels α) (course : Nat) (c : Command α) : Prop :=
  ∃ strings, ls.courses[course - 1]? = some strings ∧ ∃ pitch ∈ strings, ∃ x,
    c = .text pitch x (v.y - 0.3 * ls.style.size + v.courseOffset course) ls.style.size
      ls.style.face .left

/-- Labels that fit a stave: there is one entry for each course, each label drawn is one of a
course that the stave has, and each course of the stave has a label. -/
structure CourseLabels.Fits (ls : CourseLabels α) (v : Stave α) : Prop where
  count : ls.courses.length = v.courses
  onCourse : ∀ c ∈ v.drawLabels ls, ∃ course, v.hasCourse course = true ∧ v.IsLabel ls course c
  everyCourse : ∀ course, v.hasCourse course = true → ∃ c ∈ v.drawLabels ls, v.IsLabel ls course c

namespace CourseLabels

variable {ls : CourseLabels α} {v : Stave α}

theorem mem_drawLabels {c : Command α} : c ∈ v.drawLabels ls ↔
    ∃ strings i, ls.courses[i]? = some strings ∧ ∃ pitch j, strings[j]? = some pitch ∧
      c = .text pitch (v.x - (4.0 - 2.0 * Scalar.count j) * ls.style.size)
        (v.y - 0.3 * ls.style.size + v.courseOffset (i + 1)) ls.style.size ls.style.face .left := by
  simp only [Stave.drawLabels, List.mem_flatMap, List.mem_map, Prod.exists,
    List.mk_mem_zipIdx_iff_getElem?]
  simp only [eq_comm]

theorem isLabel_of_mem_drawLabels {c : Command α} (h : c ∈ v.drawLabels ls) :
    ∃ course, 1 ≤ course ∧ course ≤ ls.courses.length ∧ v.IsLabel ls course c := by
  obtain ⟨strings, i, hi, pitch, j, hj, rfl⟩ := mem_drawLabels.1 h
  have hcourse : i < ls.courses.length := (List.getElem?_eq_some_iff.1 hi).1
  exact ⟨i + 1, by omega, hcourse, strings, hi, pitch, List.mem_of_getElem? hj, _, rfl⟩

/-- A course with a string has a label. -/
theorem exists_isLabel (hstrings : ∀ strings ∈ ls.courses, strings ≠ []) {course : Nat}
    (h₁ : 1 ≤ course) (h₂ : course ≤ ls.courses.length) :
    ∃ c ∈ v.drawLabels ls, v.IsLabel ls course c := by
  have hcourse : ls.courses[course - 1]? = some ls.courses[course - 1] :=
    List.getElem?_eq_getElem (by omega)
  obtain ⟨pitch, rest, hpitch⟩ := List.exists_cons_of_ne_nil
    (hstrings _ (List.mem_of_getElem? hcourse))
  rw [hpitch] at hcourse
  have hline : course - 1 + 1 = course := by omega
  refine ⟨_, mem_drawLabels.2 ⟨_, _, hcourse, pitch, 0, rfl, rfl⟩, ?_⟩
  rw [hline]
  exact ⟨_, hcourse, pitch, List.mem_cons_self, _, rfl⟩

/-- Labels fit a stave if and only if there are as many as courses. -/
theorem fits_iff (hstrings : ∀ strings ∈ ls.courses, strings ≠ []) :
    ls.Fits v ↔ ls.courses.length = v.courses := by
  refine ⟨Fits.count, fun hcount => ⟨hcount, fun c hc => ?_, fun course hcourse => ?_⟩⟩
  · obtain ⟨course, h₁, h₂, hlabel⟩ := isLabel_of_mem_drawLabels hc
    refine ⟨course, ?_, hlabel⟩
    simp [Grid.hasCourse, h₁, hcount ▸ h₂]
  · simp only [Grid.hasCourse, Bool.and_eq_true, decide_eq_true_eq] at hcourse
    exact exists_isLabel hstrings hcourse.1 (hcount ▸ hcourse.2)

end CourseLabels

namespace Score

/-- The labels of a stave are those that the last list before it gives, and its courses as many as
the last list or number says; the labels fit if these are as many, as they are where the courses
are listed behind each line that counts them. -/
theorem labels_of_parse {source : String} {d : Document α} (h : parse source = .ok d) {k : Nat}
    {v : Stave α} (hv : d.staves[k]? = some v) {ls : CourseLabels α} (hls : v.labels = some ls) :
    ∃ before, IsBeforeStave (Line.tokenize source) k before ∧
      ls.courses.length = listedCourses before ∧ v.courses = countedCourses before ∧
      (ls.Fits v ↔ listedCourses before = countedCourses before) ∧
      (CoursesRelisted before → ls.Fits v) := by
  obtain ⟨before, l, hbefore, hl, hplan⟩ := plan_of_parse h hv
  have hcourses : v.courses = l.numberOfCourses := congrArg (fun u : Stave α => u.courses) hplan
  have hlabels : v.labels = if v.first && l.showCourses then some ⟨l.courses, l.courseStyle⟩
      else none := congrArg Stave.labels hplan
  have hlist : ls.courses = l.courses := by
    rw [hls] at hlabels
    split at hlabels <;> cases hlabels
    rfl
  have hlisted : ls.courses.length = listedCourses before := by
    rw [hlist]
    exact Layout.field_of_obeyAll (fun l => l.courses.length) Line.listsCourses?
      Layout.length_courses_of_obey hl
  have hcounted : v.courses = countedCourses before := by
    rw [hcourses]
    exact Layout.field_of_obeyAll Layout.numberOfCourses Line.countsCourses?
      Layout.numberOfCourses_of_obey hl
  have hstrings : ∀ strings ∈ ls.courses, strings ≠ [] := by
    rw [hlist]
    exact Layout.obeyAll_induction (P := fun l => ∀ strings ∈ l.courses, strings ≠ [])
      Layout.strings_of_obey hl (by simp [Layout.initial])
  have hfits : ls.Fits v ↔ listedCourses before = countedCourses before := by
    rw [CourseLabels.fits_iff hstrings, hlisted, hcounted]
  exact ⟨before, hbefore, hlisted, hcounted, hfits,
    fun hrelisted => hfits.2 hrelisted.listedCourses_eq⟩

/-- Five courses are counted, and then two are listed: they are as many as the labels. -/
theorem labels_of_parse_of_list :
    let source := "SHOWCOURSES\nNUMBEROFCOURSES 5\nCOURSES E4 B3-B3\nP-1\nS-"
    ∃ (d : Document Rat) (v : Stave Rat) (ls : CourseLabels Rat), parse source = .ok d ∧
      d.staves[0]? = some v ∧ v.labels = some ls ∧ v.courses = 2 ∧
      ls.courses = [["E4"], ["B3", "B3"]] ∧ ∃ before,
        IsBeforeStave (Line.tokenize source) 0 before ∧
        ls.courses.length = listedCourses before ∧ v.courses = countedCourses before ∧
        (ls.Fits v ↔ listedCourses before = countedCourses before) ∧
        (CoursesRelisted before → ls.Fits v) := by
  intro source
  have h : (parse source).toOption.map
      (fun d : Document Rat => d.staves.map fun v => (v.courses, v.labels.map (·.courses))) =
      some [(2, some [["E4"], ["B3", "B3"]])] := by
    decide +kernel
  obtain ⟨d, hd, hstaves⟩ := exists_of_toOption_map h
  obtain ⟨v, hv, hcourses⟩ := List.map_eq_singleton_iff.1 hstaves
  obtain ⟨hcount, hlabels⟩ := Prod.mk.inj hcourses
  obtain ⟨ls, hls, hlist⟩ := Option.map_eq_some_iff.1 hlabels
  have hv₀ : d.staves[0]? = some v := by rw [hv]; rfl
  exact ⟨d, v, ls, hd, hv₀, hls, hcount, hlist, labels_of_parse hd hv₀ hls⟩

/-- Labels do not always fit: where four courses are counted and none are listed, there are five
labels, and the last of them is that of no course of the stave. -/
theorem exists_not_fits :
    (¬ ∀ (source : String) (d : Document Rat) (k : Nat) (v : Stave Rat) (ls : CourseLabels Rat),
      parse source = .ok d → d.staves[k]? = some v → v.labels = some ls →
      ls.courses.length = v.courses) ∧
    ¬ ∀ (source : String) (d : Document Rat) (k : Nat) (v : Stave Rat) (ls : CourseLabels Rat),
      parse source = .ok d → d.staves[k]? = some v → v.labels = some ls →
      ∀ c ∈ v.drawLabels ls, ∃ course, v.hasCourse course = true ∧ v.IsLabel ls course c := by
  let source := "SHOWCOURSES\nNUMBEROFCOURSES 4\nP-1\nS-"
  have h : (parse source).toOption.map
      (fun d : Document Rat => d.staves.map fun v => (v.courses, v.labels.map (·.courses))) =
      some [(4, some [["E4"], ["B3", "B3"], ["G3", "G3"], ["D4", "D4"], ["A4", "A4"]])] := by
    decide +kernel
  obtain ⟨d, hd, hstaves⟩ := exists_of_toOption_map h
  obtain ⟨v, hv, hcourses⟩ := List.map_eq_singleton_iff.1 hstaves
  obtain ⟨hcount, hlabels⟩ := Prod.mk.inj hcourses
  obtain ⟨ls, hls, hlist⟩ := Option.map_eq_some_iff.1 hlabels
  have hv₀ : d.staves[0]? = some v := by rw [hv]; rfl
  refine ⟨fun hall => ?_, fun hall => ?_⟩
  · have hlength := hall source d 0 v ls hd hv₀ hls
    rw [hcount, hlist] at hlength
    cases hlength
  · have hfifth : ls.courses[4]? = some ["A4", "A4"] := by rw [hlist]; rfl
    have hdrawn := (CourseLabels.mem_drawLabels (v := v)).2 ⟨_, 4, hfifth, "A4", 0, rfl, rfl⟩
    obtain ⟨course, hcourse, strings, hstrings, pitch, hpitch, x, e⟩ :=
      hall source d 0 v ls hd hv₀ hls _ hdrawn
    obtain ⟨rfl, -⟩ := Command.text.inj e
    rw [hlist] at hstrings
    simp only [Grid.hasCourse, hcount, Bool.and_eq_true, decide_eq_true_eq] at hcourse
    have hcases : course = 1 ∨ course = 2 ∨ course = 3 ∨ course = 4 := by omega
    obtain rfl | rfl | rfl | rfl := hcases <;> cases hstrings <;> simp at hpitch

end Score

end Tablature
