import Tablature.Proofs.Faces
import Tablature.Proofs.FretSigns
import Tablature.Proofs.Measure

/-!
# Valid layouts

Whatever is asked of a layout, and whatever of that is refused, it stays one that can be
drawn by: its measures are in order, there is a font for every text, every course of the
tuning has one or two strings, and no fret is printed as nothing.

* `Layout.Call`, `Layout.afterAll`: what can be asked of a layout, and what a row of calls
  makes of it when those that are refused are passed over;
* `FretMap.IsPrintable`, `Layout.Valid`: what holds of a valid layout;
* `FretMap.isPrintable_ofList`: what is read of a list of signs;
* `Layout.Valid.obey`: a line that is obeyed keeps a layout valid;
* `Layout.valid_afterAll`: and so does every row of calls.
-/

namespace Tablature

/-! ## Signs for frets -/

/-- A map of signs that has an entry. None of its signs is empty or has a dash, and none is printed
as nothing. -/
structure FretMap.IsPrintable (m : FretMap) : Prop where
  ne_nil : m.entries ≠ []
  entries : ∀ e ∈ m.entries, e.1 ≠ "" ∧ '-' ∉ e.1.toList ∧ e.2 ≠ ""

/-- The entries of a map that is made of a list are among its pairs, and each sign of these has
one. -/
theorem FretMap.isPrintable_ofList {words : List (List Char)} {pairs : List (String × String)}
    (h : List.Forall₂ WritesFretPair words pairs) (hne : words ≠ []) :
    (ofList pairs).IsPrintable := by
  have hholds := holds_ofList pairs
  have hwritten : ∀ e ∈ pairs, e.1 ≠ "" ∧ '-' ∉ e.1.toList ∧ e.2 ≠ "" :=
    forall_right_of_forall₂ h fun _ _ hpair => ⟨hpair.sign, hpair.first, hpair.target⟩
  refine ⟨?_, fun e he => hwritten e ?_⟩
  · cases h with
    | nil => exact absurd rfl hne
    | @cons _ p _ pairs _ _ =>
      obtain ⟨target, htarget⟩ := exists_isLastFor_iff.2 ⟨p, List.mem_cons_self, rfl⟩
      exact List.ne_nil_of_mem ((hholds.mem_iff p.1 target).2 htarget)
  · obtain ⟨before, after, hpairs, -⟩ := (hholds.mem_iff e.1 e.2).1 he
    exact hpairs ▸ List.mem_append_right _ List.mem_cons_self

/-! ## Layouts -/

theorem ne_empty_of_readFace {cs : List Char} {face : String} (h : readFace cs = .ok face) :
    face ≠ "" := by
  unfold readFace at h
  split at h
  · cases h
  · rename_i hne
    cases h
    rw [ne_eq, ← String.toList_eq_nil_iff, String.toList_ofList]
    exact hne

variable {α : Type}

theorem Layout.isPrintable_of_setFretMap {l k : Layout α} {list : String}
    (hl : l.fretMap.IsPrintable) (h : l.setFretMap list = .ok k) : k.fretMap.IsPrintable := by
  obtain ⟨-, rfl⟩ | ⟨hne, pairs, hpairs, rfl⟩ := pairs_of_setFretMap h
  · exact hl
  · exact FretMap.isPrintable_ofList hpairs hne

variable [Scalar α]

namespace Layout

/-- What can be asked of a layout, with any text. -/
inductive Call where
  | set (s : Setting) (value : String)
  | setFlag (flag : Flag)
  | setCourses (list : String)
  | setFretMap (list : String)

/-- What a call does to the layout where it stands. -/
def Call.work : Call → Work Refusal (Layout α) Unit
  | set s value => put s value
  | setFlag flag => modify fun l => l.setFlag flag
  | setCourses list => putCourses list
  | setFretMap list => putFretMap list

/-- The layout that is asked for, or why it is refused. -/
def call (l : Layout α) (c : Call) : Except Refusal (Layout α) := c.work.outcome l

/-- The directive that makes the call. -/
def Call.line : Call → Line
  | set s value => .setting s value
  | setFlag flag => .flag flag
  | setCourses list => .courses list
  | setFretMap list => .fretMap list

theorem obey_line (l : Layout α) (c : Call) : l.obey c.line = l.call c := by
  cases c <;> rfl

/-- The layout that a call leaves behind, refused or not. -/
def after (l : Layout α) (c : Call) : Layout α := c.work.after l

/-- A call that is refused leaves the layout as it is. -/
theorem spares_work (c : Call) (l : Layout α) (r : Refusal) : c.work.Spares r l := by
  cases c with
  | set s value => exact spares_put s value l r
  | setFlag flag => exact .of_ok rfl
  | setCourses list => exact spares_putCourses list l r
  | setFretMap list => exact spares_putFretMap list l r

theorem after_of_call_eq_ok {l k : Layout α} {c : Call} (h : l.call c = .ok k) : l.after c = k :=
  Work.after_of_outcome h

theorem after_of_call_eq_error {l : Layout α} {c : Call} {r : Refusal} (h : l.call c = .error r) :
    l.after c = l :=
  (spares_work c l r).after_eq h

/-- The layout after calls that are made one after the other, refused or not. -/
def afterAll (l : Layout α) (calls : List Call) : Layout α := calls.foldl after l

section

variable [LawfulScalar α]

/-- A layout that can be drawn by. -/
structure Valid (l : Layout α) : Prop where
  measured : l.Measured
  faces : ∀ face ∈ l.faces, face ≠ ""
  courses_ne_nil : l.courses ≠ []
  courses : ∀ pitches ∈ l.courses, IsCourse pitches
  fretMap : l.fretMap.IsPrintable

/-- A line that is obeyed keeps a layout valid. -/
theorem Valid.obey {l k : Layout α} {line : Line} (hl : l.Valid) (h : l.obey line = .ok k) :
    k.Valid := by
  have hmeasured := measured_obey hl.measured h
  obtain ⟨c, hc, rfl⟩ := tells_of_obey h
  cases hc with
  | @length s _ _ _ | @count s _ _ _ | @flag s =>
    cases s <;> exact ⟨hmeasured, hl.faces, hl.courses_ne_nil, hl.courses, hl.fretMap⟩
  | @face s _ face hface =>
    have hfaces : ∀ f ∈ (l.setFace face s).faces, f ≠ "" := by
      intro f hf
      obtain hf | rfl := mem_faces_of_setFace hf
      · exact hl.faces f hf
      · exact ne_empty_of_readFace hface
    cases s <;> exact ⟨hmeasured, hfaces, hl.courses_ne_nil, hl.courses, hl.fretMap⟩
  | tuning hlist =>
    obtain ⟨-, hne, hcourses⟩ := courses_of_readTuning hlist
    exact ⟨hmeasured, hl.faces, hne, hcourses, hl.fretMap⟩
  | frets _ =>
    have hprintable := isPrintable_of_setFretMap hl.fretMap h
    exact ⟨hmeasured, hl.faces, hl.courses_ne_nil, hl.courses, hprintable⟩
  | emptyMap _ | content _ => exact hl

/-- A call keeps a layout valid, whether it is refused or not. -/
theorem Valid.after {l : Layout α} (hl : l.Valid) (c : Call) : (l.after c).Valid := by
  cases h : l.call c with
  | error r => rw [after_of_call_eq_error h]; exact hl
  | ok k => rw [after_of_call_eq_ok h]; exact hl.obey ((obey_line l c).trans h)

theorem Valid.afterAll {l : Layout α} (hl : l.Valid) (calls : List Call) :
    (l.afterAll calls).Valid := by
  induction calls generalizing l with
  | nil => exact hl
  | cons c calls ih => exact ih (hl.after c)

end

/-- The layout before the first call, over doubles. -/
theorem valid_initial_float : (initial : Layout Float).Valid := by
  have htuning : readTuning "E4 B3-B3 G3-G3 D4-D4 A4-A4" =
      .ok (initial : Layout Float).courses := by
    decide +kernel
  obtain ⟨-, hne, hcourses⟩ := courses_of_readTuning htuning
  exact ⟨measured_initial_float, by decide, hne, hcourses, ⟨by decide, by decide⟩⟩

end Layout

/-- A directive makes its call on the layout of a score and nothing else, and the refusal of the
call is its fault. -/
theorem Score.feed_line (l : Layout α) (d : Document α) (number : Nat) (c : Layout.Call) :
    (⟨l, d⟩ : Score α).feed ⟨number, c.line⟩ = match l.call c with
      | .ok k => (⟨k, d⟩, none)
      | .error r => (⟨l, d⟩, some (.fault (.malformedDirective number c.line.name r))) := by
  have hfeed := feed_of_isOffPage (⟨l, d⟩ : Score α) (n := ⟨number, c.line⟩) (by cases c <;> rfl)
  rw [Layout.obey_line] at hfeed
  exact hfeed

/-- Whatever calls were made on a new layout, be they refused or not, it is valid. A further call
that is refused leaves it as it is, and so does a directive with that call; and after a list of
courses that is accepted there are as many courses as groups in the list, each with the pitches of
its group. -/
theorem Layout.valid_afterAll (calls : List Call) :
    let l := (initial : Layout Float).afterAll calls
    l.Valid ∧
    (∀ c r, l.call c = .error r → l.after c = l ∧ ∀ d number,
      (⟨l, d⟩ : Score Float).feed ⟨number, c.line⟩ =
        (⟨l, d⟩, some (.fault (.malformedDirective number c.line.name r)))) ∧
    (∀ c k, l.call c = .ok k → l.after c = k ∧ ∀ d number,
      (⟨l, d⟩ : Score Float).feed ⟨number, c.line⟩ = (⟨k, d⟩, none)) ∧
    (∀ list k, l.call (.setCourses list) = .ok k →
      k.courses = (Text.words list.toList).map pitchesOf ∧
      k.numberOfCourses = (Text.words list.toList).length) := by
  intro l
  refine ⟨valid_initial_float.afterAll calls, fun c r h => ?_, fun c k h => ?_, fun list k h => ?_⟩
  · exact ⟨after_of_call_eq_error h, fun d number => by rw [Score.feed_line, h]⟩
  · exact ⟨after_of_call_eq_ok h, fun d number => by rw [Score.feed_line, h]⟩
  · obtain ⟨c, hc, rfl⟩ := tells_of_obey ((obey_line l (.setCourses list)).trans h)
    cases hc with
    | tuning hlist => exact ⟨(courses_of_readTuning hlist).1, length_of_readTuning hlist⟩
    | content hline => cases hline

end Tablature
