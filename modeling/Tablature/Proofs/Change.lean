import Tablature.Proofs.Step

/-!
# What directives change

A directive is read without regard to the layout: what it changes (`Layout.Change`)
is told by its text alone, and so is whether its argument is refused.

* `Line.change?`, `tells_of_change?`: what a line changes, and the changes by kind of line;
* `obey_eq`: a line is obeyed by making the change that it tells;
* `feed_of_isOffPage`: a directive is obeyed, or it is reported;
* `field_of_obeyAll`, `hasFlag_of_obeyAll`: a field of the layout has what the last line that
  sets it says, and a switch is on if any line has turned it on.
-/

namespace Tablature

variable {α : Type}

/-- A change of the layout. -/
inductive Layout.Change (α : Type) where
  | nothing
  | length (s : LengthSetting) (v : α)
  | count (s : CountSetting) (n : Nat)
  | face (s : FaceSetting) (face : String)
  | tuning (courses : List (List String))
  | flag (flag : Flag)
  | frets (fretMap : FretMap)

variable [Scalar α]

/-- Makes a change. -/
def Layout.change (l : Layout α) : Change α → Layout α
  | .nothing => l
  | .length s v => l.setLength v s
  | .count s n => l.setCount n s
  | .face s face => l.setFace face s
  | .tuning courses => { l with courses, numberOfCourses := courses.length }
  | .flag flag => l.setFlag flag
  | .frets fretMap => { l with fretMap }

omit [Scalar α] in
/-- Only the flag for french staves turns them. -/
theorem Layout.orientation_change_of_ne {c : Change α} (hc : c ≠ .flag .french) (l : Layout α) :
    (l.change c).orientation = l.orientation := by
  cases c with
  | length s v => cases s <;> rfl
  | count s n => cases s <;> rfl
  | face s face => cases s <;> rfl
  | flag flag => cases flag <;> first | rfl | exact absurd rfl hc
  | _ => rfl

/-- The pitches of the courses that a list names; there has to be one. -/
def readTuning (list : String) : Except Refusal (List (List String)) := do
  let courses ← (Text.words list.toList).mapM readCourse
  if courses.isEmpty then .error .noCourses else .ok courses

/-- What a line changes, or why its argument is refused. -/
def Line.change? : Line → Except Refusal (Layout.Change α)
  | setting (.length s) value => (readLength (Text.trim value.toList)).map (.length s)
  | setting (.count s) value => (readCount (Text.trim value.toList)).map (.count s)
  | setting (.face s) value => (readFace (Text.trim value.toList)).map (.face s)
  | courses list => (readTuning list).map .tuning
  | flag f => .ok (.flag f)
  | fretMap list =>
    match Text.words list.toList with
    | [] => .ok .nothing
    | words => (words.mapM readFretPair).map fun pairs => .frets (.ofList pairs)
  | _ => .ok .nothing

/-- Whether the line is a directive. -/
def Line.isDirective : Line → Bool
  | setting _ _ | courses _ | flag _ | fretMap _ => true
  | _ => false

/-- The changes that lines tell, by the kind of line. -/
inductive Line.Tells : Line → Layout.Change α → Prop where
  | length {s : LengthSetting} {value : String} {v : α} :
    readLength (Text.trim value.toList) = .ok v → Tells (.setting (.length s) value) (.length s v)
  | count {s : CountSetting} {value : String} {n : Nat} :
    readCount (Text.trim value.toList) = .ok n → Tells (.setting (.count s) value) (.count s n)
  | face {s : FaceSetting} {value face : String} :
    readFace (Text.trim value.toList) = .ok face → Tells (.setting (.face s) value) (.face s face)
  | tuning {list : String} {courses : List (List String)} :
    readTuning list = .ok courses → Tells (.courses list) (.tuning courses)
  | flag (f : Flag) : Tells (.flag f) (.flag f)
  | frets {list : String} {pairs : List (String × String)} :
    (Text.words list.toList).mapM readFretPair = .ok pairs →
    Tells (.fretMap list) (.frets (.ofList pairs))
  | emptyMap {list : String} : Text.words list.toList = [] → Tells (.fretMap list) .nothing
  | content {line : Line} : line.isDirective = false → Tells line .nothing

theorem Line.tells_of_change? {line : Line} {c : Layout.Change α} (h : line.change? = .ok c) :
    line.Tells c := by
  cases line with
  | setting s value =>
    cases s with
    | length s => obtain ⟨v, hv, rfl⟩ := map_eq_ok.1 h; exact .length hv
    | count s => obtain ⟨n, hn, rfl⟩ := map_eq_ok.1 h; exact .count hn
    | face s => obtain ⟨face, hface, rfl⟩ := map_eq_ok.1 h; exact .face hface
  | courses list => obtain ⟨courses, hcourses, rfl⟩ := map_eq_ok.1 h; exact .tuning hcourses
  | flag f => cases h; exact .flag f
  | fretMap list =>
    simp only [change?] at h
    split at h
    · rename_i hwords
      cases h
      exact .emptyMap hwords
    · obtain ⟨pairs, hpairs, rfl⟩ := map_eq_ok.1 h
      exact .frets hpairs
  | _ => cases h; exact .content rfl

namespace Layout

/-- A line is obeyed by making the change that it tells. -/
theorem obey_eq (l : Layout α) (line : Line) : l.obey line = line.change?.map l.change := by
  cases line with
  | setting s value =>
    cases s with
    | length s =>
      simp only [obey, set_length, Line.change?]
      cases (readLength (Text.trim value.toList) : Except Refusal α) <;> rfl
    | count s =>
      simp only [obey, set_count, Line.change?]
      cases readCount (Text.trim value.toList) <;> rfl
    | face s =>
      simp only [obey, set_face, Line.change?]
      cases readFace (Text.trim value.toList) <;> rfl
  | courses list =>
    simp only [obey, setCourses_eq, Line.change?, readTuning]
    cases (Text.words list.toList).mapM readCourse with
    | error r => rfl
    | ok courses =>
      simp only [bind, Except.bind]
      split <;> rfl
  | fretMap list =>
    simp only [obey, setFretMap_eq, Line.change?]
    cases Text.words list.toList with
    | nil => rfl
    | cons word words =>
      dsimp only
      cases (word :: words).mapM readFretPair <;> rfl
  | _ => rfl

theorem obey_eq_ok {l k : Layout α} {line : Line} :
    l.obey line = .ok k ↔ ∃ c, line.change? = .ok c ∧ l.change c = k := by
  rw [obey_eq, map_eq_ok]

theorem tells_of_obey {l k : Layout α} {line : Line} (h : l.obey line = .ok k) :
    ∃ c, line.Tells c ∧ l.change c = k := by
  obtain ⟨c, hc, hk⟩ := obey_eq_ok.1 h
  exact ⟨c, Line.tells_of_change? hc, hk⟩

/-- The layout after lines that are obeyed one after the other. -/
def obeyAll (l : Layout α) (lines : List NumberedLine) : Except Refusal (Layout α) :=
  lines.foldlM (fun l n => l.obey n.line) l

theorem obeyAll_concat {l k m : Layout α} {lines : List NumberedLine} {n : NumberedLine}
    (hk : l.obeyAll lines = .ok k) (hm : k.obey n.line = .ok m) :
    l.obeyAll (lines ++ [n]) = .ok m := by
  unfold obeyAll at hk ⊢
  rw [List.foldlM_append, hk]
  change k.obey n.line >>= pure = _
  rw [bind_pure, hm]

/-- What each line keeps of a layout, a run of them keeps. -/
theorem obeyAll_induction {P : Layout α → Prop}
    (hP : ∀ {l k : Layout α} {line : Line}, l.obey line = .ok k → P l → P k) {l k : Layout α}
    {lines : List NumberedLine} (h : l.obeyAll lines = .ok k) (hl : P l) : P k := by
  unfold obeyAll at h
  induction lines generalizing l with
  | nil => cases h; exact hl
  | cons n lines ih =>
    obtain ⟨m, hm, h⟩ := bind_eq_ok.1 h
    exact ih h (hP hm hl)

/-- A field of the layout has what the last line that sets it says, and what it had before if
there is none. -/
theorem field_of_obeyAll {β : Type} (field : Layout α → β) (said? : Line → Option β)
    (hfield : ∀ {l k : Layout α} {line : Line}, l.obey line = .ok k →
      field k = (said? line).getD (field l))
    {l k : Layout α} {lines : List NumberedLine} (h : l.obeyAll lines = .ok k) :
    field k = (lines.filterMap fun n => said? n.line).getLast?.getD (field l) := by
  unfold obeyAll at h
  induction lines generalizing l with
  | nil => cases h; rfl
  | cons n lines ih =>
    obtain ⟨m, hm, h⟩ := bind_eq_ok.1 h
    rw [ih h, hfield hm, List.filterMap_cons]
    cases said? n.line with
    | none => rfl
    | some b => rw [List.getLast?_cons, Option.getD_some, Option.getD_some]

/-- Whether a switch is on. -/
def hasFlag (l : Layout α) : Flag → Bool
  | .showCourses => l.showCourses
  | .justified => l.justified
  | .fretMappingOff => !l.mapFrets
  | .french => l.orientation == .french

theorem hasFlag_of_obey (flag : Flag) {l k : Layout α} {line : Line} (h : l.obey line = .ok k) :
    k.hasFlag flag = (line == .flag flag || l.hasFlag flag) := by
  obtain ⟨c, hc, rfl⟩ := tells_of_obey h
  cases hc with
  | @length s => cases s <;> rfl
  | @count s => cases s <;> rfl
  | @face s => cases s <;> rfl
  | flag f => cases f <;> cases flag <;> rfl
  | content hline => cases line <;> first | rfl | cases hline
  | _ => rfl

/-- A switch is on if a line has turned it on, or it was on before. -/
theorem hasFlag_of_obeyAll (flag : Flag) {l k : Layout α} {lines : List NumberedLine}
    (h : l.obeyAll lines = .ok k) :
    k.hasFlag flag = ((lines.any (·.line == .flag flag)) || l.hasFlag flag) := by
  unfold obeyAll at h
  induction lines generalizing l with
  | nil => cases h; rfl
  | cons n lines ih =>
    obtain ⟨m, hm, h⟩ := bind_eq_ok.1 h
    rw [ih h, hasFlag_of_obey flag hm, List.any_cons, ← Bool.or_assoc, Bool.or_comm (List.any _ _)]

end Layout

namespace Score

/-- A line that can be written is obeyed by the layout, be it a directive or not. -/
theorem Wrote.obey {s s' : Score α} {n : NumberedLine} (h : s.Wrote n s') :
    s.layout.obey n.line = .ok s'.layout := by
  cases h with
  | page hn _ | stave hn _ _ | title hn _ | composer hn _ | blank hn _ => rw [hn]; rfl
  | onStave hn _ _ =>
    obtain ⟨number, line⟩ := n
    cases line <;> first | rfl | cases hn
  | offPage _ hl => exact hl

/-- So are all lines of a run that can be written. -/
theorem obeyAll_of_stepAll {s s' : Score α} {lines : List NumberedLine}
    (h : s.stepAll lines = .ok s') : s.layout.obeyAll lines = .ok s'.layout :=
  stepAll_induction (P := fun t lines => s.layout.obeyAll lines = .ok t.layout)
    (fun h hs => Layout.obeyAll_concat hs h.obey) [] h rfl

/-- A directive is obeyed, or it has no effect and is reported. -/
theorem feed_of_isOffPage (s : Score α) {n : NumberedLine} (hn : n.line.isOffPage = true) :
    s.feed n = match s.layout.obey n.line with
      | .ok l => ({ s with layout := l }, none)
      | .error r => (s, some (refuse n r)) := by
  have hstep : s.step n = (argument n (s.layout.obey n.line)).map s.setLayout := by
    obtain ⟨number, line⟩ := n
    rw [step_eq]
    cases line <;> first | rfl | cases hn
  have hnotes (rhythm : Option Rhythm) (tokens : String) : n.line ≠ .notes rhythm tokens := by
    intro h
    rw [h] at hn
    cases hn
  cases h : s.layout.obey n.line with
  | ok l =>
    rw [h] at hstep
    exact feed_of_ok hstep
  | error r =>
    rw [h] at hstep
    exact feed_of_error hnotes hstep

end Score

end Tablature
