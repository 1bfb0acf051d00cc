import Tablature.Proofs.Measure

/-!
# Well-formed scores

Whatever lines are fed to a score, and whether they can be written or not, its
document is well-formed: the first page and no other is marked as the first, and
on every stave the marks lie where the stave has slots and courses.

* `Mark.LiesOn`: where a mark lies on a stave;
* `Stave.WellFormed`, `wellFormed_of_act`: what a well-formed stave is, and that acts
  keep it so;
* `Stave.WellFormed.regular`: nothing is divided by zero, nothing subtracted from a
  smaller count, and no course drawn beside the stave;
* `Document.WellFormed`, `wellFormed_feedAll`: the same of every document that lines
  write.
-/

namespace Tablature

variable {α : Type}

/-! ## The first page -/

namespace Score

/-- Of the marks that the pages carry, the first alone is set. -/
def FirstMarked (s : Score α) : Prop :=
  ∀ i first, (s.document.pages.map Page.first)[i]? = some first → (first = true ↔ i = 0)

/-- A page is marked as the first if there is none before it. -/
theorem FirstMarked.addPage {s : Score α} (h : s.FirstMarked) (number : Nat) :
    (s.addPage number).FirstMarked := by
  intro i first hi
  simp only [Score.addPage, Document.addPage, List.map_append, List.map_cons, List.map_nil] at hi
  obtain hi | ⟨rfl, rfl⟩ := getElem?_concat_eq_some hi
  · exact h i first hi
  · simp [Page.blank, Document.isEmpty]

variable [Scalar α]

theorem FirstMarked.feed {s : Score α} (h : s.FirstMarked) (n : NumberedLine) :
    (s.feed n).1.FirstMarked := by
  obtain ⟨number, e⟩ | e := s.feed_map_pages (f := Page.first) (fun _ _ _ _ => rfl) n
  · rw [e]; exact h.addPage number
  · unfold FirstMarked
    rw [e]
    exact h

theorem FirstMarked.feedAll {s : Score α} (h : s.FirstMarked) (lines : List NumberedLine) :
    (s.feedAll lines).FirstMarked := by
  induction lines generalizing s with
  | nil => exact h
  | cons n lines ih => exact ih (h.feed n)

end Score

/-! ## Marks on a stave -/

namespace Mark

/-- The slots that a mark stands in: two for a slur. -/
def slots : Mark → List Nat
  | slur start stop => [start.slot, stop.slot]
  | m => [m.slot]

end Mark

/-- A mark lies on a stave: in slots that have been reached, on courses that the stave has, and a
slur does not end before it begins. -/
structure Mark.LiesOn (v : Stave α) (m : Mark) : Prop where
  slots : ∀ slot ∈ m.slots, slot ≤ v.cursor
  courses : ∀ course ∈ m.courses v.courses, 1 ≤ course ∧ course ≤ v.courses
  forwards : ∀ start stop, m = .slur start stop → start.slot ≤ stop.slot

/-- What lies on a stave still does when the stave goes on. -/
theorem Mark.LiesOn.mono {v w : Stave α} {m : Mark} (h : m.LiesOn v) (hw : w.courses = v.courses)
    (hc : v.cursor ≤ w.cursor) : m.LiesOn w where
  slots slot hs := Nat.le_trans (h.slots slot hs) hc
  courses := by rw [hw]; exact h.courses
  forwards := h.forwards

theorem Grid.hasCourse_iff {g : Grid α} {course : Nat} :
    g.hasCourse course = true ↔ 1 ≤ course ∧ course ≤ g.courses := by
  simp [hasCourse]

/-- No slur is written as it stands: it is begun and ended. -/
theorem Mark.Fits.ne_slur {v : Stave α} {m : Mark} (h : m.Fits v) (start stop : Anchor) :
    m ≠ .slur start stop := by
  rintro rfl
  exact h

/-- What a line may write lies on the stave. -/
theorem Mark.Fits.liesOn {v : Stave α} {m : Mark} (h : m.Fits v) (hv : 1 ≤ v.courses) :
    m.LiesOn v := by
  have hforwards (start stop : Anchor) (e : m = .slur start stop) : start.slot ≤ stop.slot :=
    absurd e (h.ne_slur start stop)
  cases m with
  | note slot course fret =>
    obtain ⟨rfl, hc⟩ := h
    exact ⟨by simp [slots, slot], by simpa [courses] using Grid.hasCourse_iff.1 hc, hforwards⟩
  | semicircle side slot course =>
    obtain ⟨rfl, hc⟩ := h
    exact ⟨by simp [slots, slot], by simpa [courses] using Grid.hasCourse_iff.1 hc, hforwards⟩
  | barberpole slot range =>
    obtain ⟨rfl, hr⟩ := h
    refine ⟨by simp [slots, slot], ?_, hforwards⟩
    cases range with
    | none => simpa [courses] using hv
    | some ends =>
      obtain ⟨h₁, h₂⟩ := hr ends rfl
      simpa [courses] using ⟨Grid.hasCourse_iff.1 h₁, Grid.hasCourse_iff.1 h₂⟩
  | slur start stop => exact h.elim
  | tick slot _ | barline _ slot _ | timeSignature slot _ | alfabeto slot _ =>
    obtain rfl := h
    exact ⟨by simp [slots, slot], by simp [courses], hforwards⟩
  | strum slot _ | sectionSign slot =>
    obtain rfl := h
    exact ⟨by simp [slots, slot], by simp [courses], hforwards⟩

/-! ## Staves -/

namespace Stave

variable [Scalar α]

/-- A stave has slots, courses and a length, its marks lie on it, and so does the beginning of a
slur that has not ended. -/
structure WellFormed (v : Stave α) : Prop where
  slots : 1 ≤ v.slots
  courses : 1 ≤ v.courses
  length : (0.0 : α) < v.length
  marks : ∀ g ∈ v.glyphs, g.mark.LiesOn v
  openSlur : ∀ start ∈ v.openSlur,
    start.slot ≤ v.cursor ∧ 1 ≤ start.course ∧ start.course ≤ v.courses

namespace WellFormed

variable {l : Layout α} {v w : Stave α}

theorem place (h : v.WellFormed) {m : Mark} (hm : m.LiesOn v) : (v.place l m).WellFormed where
  slots := h.slots
  courses := h.courses
  length := h.length
  marks g hg := by
    rcases List.mem_append.1 hg with hg | hg
    · exact (h.marks g hg).mono rfl (Nat.le_refl _)
    · rw [List.mem_singleton.1 hg, mark_place]; exact hm.mono rfl (Nat.le_refl _)
  openSlur := h.openSlur

theorem advance (h : v.WellFormed) (slots : Nat) : (v.advance slots).WellFormed where
  slots := h.slots
  courses := h.courses
  length := h.length
  marks g hg := (h.marks g hg).mono rfl (Nat.le_add_right _ _)
  openSlur start hs := (h.openSlur start hs).imp_left Nat.le_add_right_of_le

theorem beginSlur (h : v.WellFormed) {course : Nat} (hc : v.hasCourse course) :
    (v.beginSlur course).WellFormed where
  slots := h.slots
  courses := h.courses
  length := h.length
  marks g hg := (h.marks g hg).mono rfl (Nat.le_refl _)
  openSlur start hs := by
    cases hs
    exact ⟨Nat.le_refl _, Grid.hasCourse_iff.1 hc⟩

theorem dropSlur (h : v.WellFormed) : ({ v with openSlur := none } : Stave α).WellFormed :=
  ⟨h.slots, h.courses, h.length, fun g hg => (h.marks g hg).mono rfl (Nat.le_refl _), nofun⟩

/-- The slur ends at the cursor, which what was open cannot have passed. -/
theorem endSlur (h : v.WellFormed) {course : Nat} (hc : v.hasCourse course)
    (hw : v.endSlur? l course = some w) : w.WellFormed := by
  obtain ⟨start, hstart, rfl⟩ := Option.map_eq_some_iff.1 hw
  obtain ⟨hslot, hcourse⟩ := h.openSlur start hstart
  refine h.dropSlur.place ⟨?_, ?_, fun _ _ e => ?_⟩
  · simpa [Mark.slots] using hslot
  · simpa [Mark.courses] using ⟨hcourse, Grid.hasCourse_iff.1 hc⟩
  · cases e; exact hslot

end WellFormed

/-- Acts keep a stave well-formed. -/
theorem wellFormed_of_act {l : Layout α} {v w : Stave α} (h : Act l v w) (hv : v.WellFormed) :
    w.WellFormed := by
  cases h with
  | place hm => exact hv.place (hm.liesOn hv.courses)
  | advance slots => exact hv.advance slots
  | beginSlur hc => exact hv.beginSlur hc
  | endSlur hc hw => exact hv.endSlur hc hw
  | dropSlur => exact hv.dropSlur

/-- What is computed of a stave is regular: the width of a slot and the room added by justifying
are not quotients by zero, the slots before the last one are counted from at least one, and every
course that something stands on has a line of the stave. -/
structure Regular (v : Stave α) : Prop where
  slotWidth : (0.0 : α) < Scalar.count v.slots
  slack : ∀ room, v.slack? = some room →
    1 ≤ v.cursor ∧ (0.0 : α) < Scalar.count (v.cursor - 1)
  lines : v.courses < Count.max → ∀ course,
    (∃ g ∈ v.glyphs, course ∈ g.mark.courses v.courses) ∨
      (∃ start ∈ v.openSlur, course = start.course) →
    ∃ line, v.orientation.linePosition? course v.courses = some line ∧ 1 ≤ line ∧ line ≤ v.courses

theorem one_lt_cursor_of_slack {v : Stave α} {room : α} (h : v.slack? = some room) :
    1 < v.cursor := by
  unfold slack? at h
  split at h
  · cases h
  · rename_i hv
    simp only [Bool.or_eq_true, decide_eq_true_eq, not_or] at hv
    exact Nat.not_le.1 hv.2

theorem WellFormed.regular [LawfulScalar α] {v : Stave α} (h : v.WellFormed) : v.Regular where
  slotWidth := LawfulScalar.zero_lt_count h.slots
  slack room hroom := by
    have hc := one_lt_cursor_of_slack hroom
    exact ⟨Nat.le_of_lt hc, LawfulScalar.zero_lt_count (Nat.sub_pos_of_lt hc)⟩
  lines hmax course hcourse := by
    refine ⟨_, Orientation.linePosition?_eq_some.2 ⟨fun _ => hmax, rfl⟩, ?_⟩
    obtain ⟨g, hg, hc⟩ | ⟨start, hs, rfl⟩ := hcourse
    · obtain ⟨h₁, h₂⟩ := (h.marks g hg).courses course hc
      exact Orientation.linePosition_mem _ h₁ h₂
    · obtain ⟨-, h₁, h₂⟩ := h.openSlur start hs
      exact Orientation.linePosition_mem _ h₁ h₂

end Stave

variable [Scalar α] [LawfulScalar α]

/-- The staves of every page are well-formed, because its measures are in order when they are
begun. -/
theorem Page.invariant_wellFormed : Score.Invariant (α := α) Layout.Measured
    fun p => p.Measured ∧ ∀ v ∈ p.staves, v.WellFormed :=
  invariant_measures.and_staves
    (fun _ _ hl hp hlength =>
      { slots := hl.slots
        courses := hl.numberOfCourses
        length := LawfulScalar.zero_lt_sub_sub hp.width.1 hp.leftMargin.1 hp.rightMargin.1 hlength
        marks := fun g hg => by cases hg
        openSlur := fun start hs => by cases hs })
    Stave.wellFormed_of_act

/-! ## Documents -/

/-- The first page of a document and no other is marked as the first, and all its staves are
well-formed. -/
structure Document.WellFormed (d : Document α) : Prop where
  first : ∀ i p, d.pages[i]? = some p → (p.first = true ↔ i = 0)
  staves : ∀ p ∈ d.pages, ∀ v ∈ p.staves, v.WellFormed

theorem Document.WellFormed.regular {d : Document α} (h : d.WellFormed) :
    ∀ p ∈ d.pages, ∀ v ∈ p.staves, v.Regular :=
  fun p hp v hv => (h.staves p hp v hv).regular

namespace Score

/-- The layout that a score begins with has its measures in order, and each line keeps them so. -/
theorem wellFormed_of_measured (h : (Layout.initial : Layout α).Measured)
    (lines : List NumberedLine) : ((empty : Score α).feedAll lines).document.WellFormed where
  first i p hp := by
    have hempty : (empty : Score α).FirstMarked := fun i first hi => by cases hi
    exact hempty.feedAll lines i p.first (by rw [List.getElem?_map, hp]; rfl)
  staves p hp := ((Page.invariant_wellFormed.feedAll lines (everywhere_empty h)).pages p hp).2

/-- Every document that lines write is well-formed, and what is computed of its staves is regular,
in rounded and in exact arithmetic. -/
theorem wellFormed_feedAll (lines : List NumberedLine) :
    (((empty : Score Float).feedAll lines).document.WellFormed ∧
      ∀ p ∈ ((empty : Score Float).feedAll lines).document.pages, ∀ v ∈ p.staves, v.Regular) ∧
    ((empty : Score Rat).feedAll lines).document.WellFormed ∧
      ∀ p ∈ ((empty : Score Rat).feedAll lines).document.pages, ∀ v ∈ p.staves, v.Regular := by
  have hfloat := wellFormed_of_measured Layout.measured_initial_float lines
  have hrat := wellFormed_of_measured Layout.measured_initial_rat lines
  exact ⟨⟨hfloat, hfloat.regular⟩, hrat, hrat.regular⟩

end Score

end Tablature
