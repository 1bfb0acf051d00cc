import Tablature.Proofs.Change
import Tablature.Proofs.Sections

/-!
# Tunings

A list of courses is read word by word, and each word is cut at its dashes into the pitches
of its strings. So a tuning that is read has a course for each word of its list, and each
of them has one or two pitches in which there is neither a dash nor a blank.

* `mem_of_mem_splitOnP`: the parts that a list is cut into;
* `pitchesOf`, `IsCourse`: the pitches that a word names, and what can be a course;
* `courses_of_readTuning`: what is read of a list of courses.
-/

namespace Tablature

/-! ## Words -/

/-- What is read of each member of a list stands in its place. -/
theorem forall₂_of_mapM {ε β γ : Type} {f : β → Except ε γ} {xs : List β} {ys : List γ}
    (h : xs.mapM f = .ok ys) : List.Forall₂ (fun x y => f x = .ok y) xs ys := by
  induction xs generalizing ys with
  | nil => cases h; exact .nil
  | cons x xs ih =>
    rw [List.mapM_cons] at h
    obtain ⟨y, hy, h⟩ := bind_eq_ok.1 h
    obtain ⟨zs, hzs, h⟩ := bind_eq_ok.1 h
    cases h
    exact .cons hy (ih hzs)

/-- The parts that a list is cut into hold members of the list, and none of those at which it
is cut. -/
theorem mem_of_mem_splitOnP {β : Type} {p : β → Bool} {xs part : List β}
    (h : part ∈ xs.splitOnP p) {x : β} (hx : x ∈ part) : x ∈ xs ∧ p x = false := by
  induction xs generalizing part with
  | nil =>
    rw [List.splitOnP_nil, List.mem_singleton] at h
    subst h
    cases hx
  | cons y xs ih =>
    rw [List.splitOnP_cons_eq_if_modifyHead] at h
    split at h
    · obtain rfl | h := List.mem_cons.1 h
      · cases hx
      · exact (ih h hx).imp_left (List.mem_cons_of_mem y)
    · -- the first part is that of the rest with one more member
      rename_i hy
      obtain ⟨first, rest, hparts⟩ := List.exists_cons_of_ne_nil (List.splitOnP_ne_nil p xs)
      rw [hparts, List.modifyHead_cons] at h
      rw [hparts] at ih
      obtain rfl | h := List.mem_cons.1 h
      · obtain rfl | hx := List.mem_cons.1 hx
        · exact ⟨List.mem_cons_self, by simpa using hy⟩
        · exact (ih List.mem_cons_self hx).imp_left (List.mem_cons_of_mem y)
      · exact (ih (List.mem_cons_of_mem _ h) hx).imp_left (List.mem_cons_of_mem y)

theorem Text.isBlank_of_mem_words {cs word : List Char} (h : word ∈ words cs) {c : Char}
    (hc : c ∈ word) : isBlank c = false :=
  (mem_of_mem_splitOnP (List.mem_of_mem_filter h) hc).2

/-! ## Courses -/

/-- The pitches of a course: one or two, none of them empty, and none with a dash or a blank. -/
structure IsCourse (pitches : List String) : Prop where
  strings : pitches.length = 1 ∨ pitches.length = 2
  ne_empty : ∀ pitch ∈ pitches, pitch ≠ ""
  plain : ∀ pitch ∈ pitches, ∀ c ∈ pitch.toList, c ≠ '-' ∧ Text.isBlank c = false

theorem IsCourse.ne_nil {pitches : List String} (h : IsCourse pitches) : pitches ≠ [] := by
  rintro rfl
  obtain h | h := h.strings <;> cases h

/-- The pitches that a word of the tuning names. -/
def pitchesOf (word : List Char) : List String := (word.splitOn '-').map String.ofList

theorem isCourse_of_readCourse {word : List Char} {pitches : List String}
    (h : readCourse word = .ok pitches) (hword : ∀ c ∈ word, Text.isBlank c = false) :
    pitches = pitchesOf word ∧ IsCourse pitches := by
  simp only [readCourse] at h
  split at h
  · cases h
  · rename_i hne
    split at h
    · cases h
    · rename_i hlength
      cases h
      refine ⟨rfl, ⟨?_, fun pitch hpitch => ?_, fun pitch hpitch c hc => ?_⟩⟩
      · have hpos := List.length_pos_iff.2 (List.splitOn_ne_nil '-' word)
        rw [List.length_map]
        omega
      · obtain ⟨part, hpart, rfl⟩ := List.mem_map.1 hpitch
        rw [ne_eq, ← String.toList_eq_nil_iff, String.toList_ofList]
        rintro rfl
        exact hne (List.any_eq_true.2 ⟨[], hpart, rfl⟩)
      · obtain ⟨part, hpart, rfl⟩ := List.mem_map.1 hpitch
        rw [String.toList_ofList] at hc
        rw [List.splitOn_eq_splitOnP] at hpart
        obtain ⟨hmem, hdash⟩ := mem_of_mem_splitOnP hpart hc
        exact ⟨by simpa using hdash, hword c hmem⟩

/-- A tuning is that of all the words of its list, of which there has to be one. -/
theorem courses_of_readTuning {list : String} {courses : List (List String)}
    (h : readTuning list = .ok courses) :
    courses = (Text.words list.toList).map pitchesOf ∧ courses ≠ [] ∧
      ∀ pitches ∈ courses, IsCourse pitches := by
  obtain ⟨cs, hcs, h⟩ := bind_eq_ok.1 h
  split at h
  · cases h
  · rename_i hne
    cases h
    have hwords : ∀ word ∈ Text.words list.toList, ∀ c ∈ word, Text.isBlank c = false :=
      fun _ hword _ hc => Text.isBlank_of_mem_words hword hc
    have hread := ((List.forall₂_and_left _ _).2 ⟨hwords, forall₂_of_mapM hcs⟩).imp
      fun _ _ h => isCourse_of_readCourse h.2 h.1
    refine ⟨?_, by simpa using hne, forall_right_of_forall₂ hread fun _ _ h => h.2⟩
    rw [eq_comm, ← List.forall₂_eq_eq_eq, List.forall₂_map_left_iff]
    exact hread.imp fun _ _ h => h.1.symm

end Tablature
