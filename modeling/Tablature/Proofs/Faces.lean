import Tablature.Proofs.Drawing
import Tablature.Proofs.Step

/-!
# Where faces come from

A score writes in the faces of the first layout and in those that its lines have
named, and in no others: a line adds the face it names, if it names one, and
whatever is begun or written takes its face from the layout.

* `Line.face?`: the face that a line names;
* `Layout.mem_faces_of_obey`, `Stave.mem_faces_of_act`, `mem_faces_of_wrote`: what a
  line, an act and a line on a score add;
* `mem_faces_of_parse`: the faces of the document of a source.
-/

namespace Tablature

/-- The face that a line names. -/
def Line.face? : Line → Option String
  | .setting (.face _) value => some (String.ofList (Text.trim value.toList))
  | _ => none

variable {α : Type}

/-- The faces that a layout writes in. -/
def Layout.faces (l : Layout α) : List String :=
  [l.courseStyle.face, l.barlineStyle.face, l.titleStyle.face, l.composerStyle.face,
    l.fretStyle.face, l.alfabetoFace]

/-- The faces that a score writes in, or will. -/
def Score.faces (s : Score α) : List String := s.layout.faces ++ s.document.faces

variable [Scalar α] {f : String}

/-! ## Layouts -/

omit [Scalar α] in
theorem Layout.mem_faces_of_setFace {l : Layout α} {face : String} {s : FaceSetting}
    (h : f ∈ (l.setFace face s).faces) : f ∈ l.faces ∨ f = face := by
  cases s <;>
  · simp only [setFace, faces, List.mem_cons, List.not_mem_nil, or_false] at h ⊢
    grind

/-- A line adds at most the face that it names to the layout. -/
theorem Layout.mem_faces_of_obey {l l' : Layout α} {line : Line} (h : l.obey line = .ok l')
    (hf : f ∈ l'.faces) : f ∈ l.faces ∨ line.face? = some f := by
  cases line with
  | setting s value =>
    cases s with
    | length s =>
      rw [obey, set_length] at h
      obtain ⟨v, -, rfl⟩ := map_eq_ok.1 h
      refine .inl ?_
      cases s <;> exact hf
    | count s =>
      rw [obey, set_count] at h
      obtain ⟨n, -, rfl⟩ := map_eq_ok.1 h
      refine .inl ?_
      cases s <;> exact hf
    | face s =>
      rw [obey, set_face] at h
      obtain ⟨face, hface, rfl⟩ := map_eq_ok.1 h
      have e : face = String.ofList (Text.trim value.toList) := by
        unfold readFace at hface
        split at hface
        · cases hface
        · exact (Except.ok.inj hface).symm
      refine (mem_faces_of_setFace hf).imp_right fun hf => ?_
      rw [hf, e]
      rfl
  | courses list =>
    rw [obey, setCourses_eq] at h
    obtain ⟨courses, -, h⟩ := bind_eq_ok.1 h
    split at h
    · cases h
    · cases h
      exact .inl hf
  | fretMap list =>
    rw [obey, setFretMap_eq] at h
    split at h
    · cases h
      exact .inl hf
    · obtain ⟨pairs, -, rfl⟩ := map_eq_ok.1 h
      exact .inl hf
  | flag flag =>
    cases h
    refine .inl ?_
    cases flag <;> exact hf
  | _ =>
    cases h
    exact .inl hf

/-! ## Staves -/

/-- A mark is written in a face of the layout, if in any. -/
theorem mem_faces_of_place {g : Grid α} {l : Layout α} {m : Mark} (h : f ∈ (m.place g l).faces) :
    f ∈ l.faces := by
  cases m with
  | note _ _ _ =>
    have e : f = l.fretStyle.face := List.mem_singleton.1 h
    simp [Layout.faces, e]
  | barline _ _ _ =>
    have e : f = l.barlineStyle.face := List.mem_singleton.1 h
    simp [Layout.faces, e]
  | alfabeto _ _ =>
    have e : f = l.alfabetoFace := List.mem_singleton.1 h
    simp [Layout.faces, e]
  | _ => cases h

theorem faces_pad (p : α) (x : Glyph α) : (x.pad p).faces = x.faces := by
  cases x with
  | barline b =>
    obtain ⟨kind, _⟩ := b
    cases kind <;> rfl
  | _ => rfl

namespace Stave

theorem mem_faces_of_blank {l : Layout α} {first : Bool} {x y length : α}
    (h : f ∈ ((blank l first).moveTo x y length).faces) : f ∈ l.faces := by
  obtain ⟨labels, hlabels, e⟩ | ⟨g, hg, -⟩ := mem_faces_iff.1 h
  · simp only [blank, moveTo, Option.ite_none_right_eq_some] at hlabels
    obtain ⟨-, hlabels⟩ := hlabels
    cases hlabels
    simp [Layout.faces, e]
  · cases hg

theorem mem_faces_of_placed {l : Layout α} {v : Stave α} {m : Mark}
    (h : f ∈ (v.place l m).faces) : f ∈ v.faces ∨ f ∈ l.faces := by
  obtain h | ⟨g, hg, h⟩ := mem_faces_iff.1 h
  · exact .inl (mem_faces_iff.2 (.inl h))
  · obtain hg | hg := List.mem_append.1 hg
    · exact .inl (mem_faces_iff.2 (.inr ⟨g, hg, h⟩))
    · rw [List.mem_singleton.1 hg] at h
      exact .inr (mem_faces_of_place h)

/-- An act on a stave adds no faces but those of the layout. -/
theorem mem_faces_of_act {l : Layout α} {v w : Stave α} (h : Act l v w) (hf : f ∈ w.faces) :
    f ∈ v.faces ∨ f ∈ l.faces := by
  cases h with
  | place _ => exact mem_faces_of_placed hf
  | advance _ => exact .inl hf
  | beginSlur _ => exact .inl hf
  | endSlur _ h =>
    obtain ⟨start, -, rfl⟩ := Option.map_eq_some_iff.1 h
    exact mem_faces_of_placed hf
  | dropSlur => exact .inl hf

theorem mem_faces_of_acts {l : Layout α} {v w : Stave α} (h : Acts l v w) (hf : f ∈ w.faces) :
    f ∈ v.faces ∨ f ∈ l.faces := by
  induction h with
  | refl => exact .inl hf
  | tail _ h ih => exact (mem_faces_of_act h hf).elim ih .inr

theorem faces_justify (v : Stave α) : v.justify.faces = v.faces := by
  unfold justify
  split
  · rfl
  · simp only [faces, List.flatMap_map, faces_pad]

end Stave

/-! ## Pages -/

namespace Page

theorem mem_faces_of_append {l : Layout α} {first : Bool} {p q : Page α}
    (h : p.append (.blank l first) = .ok q) (hf : f ∈ q.faces) : f ∈ p.faces ∨ f ∈ l.faces := by
  obtain ⟨-, rfl⟩ := append_eq_ok.1 h
  obtain hf | hf | ⟨v, hv, hf⟩ := mem_faces_iff.1 hf
  · exact .inl (mem_faces_iff.2 (.inl hf))
  · exact .inl (mem_faces_iff.2 (.inr (.inl hf)))
  · obtain hv | hv := List.mem_append.1 hv
    · exact .inl (mem_faces_iff.2 (.inr (.inr ⟨v, hv, hf⟩)))
    · rw [List.mem_singleton.1 hv] at hf
      exact .inr (Stave.mem_faces_of_blank hf)

theorem mem_faces_of_setTitle {l : Layout α} {p : Page α} {text : String}
    (hf : f ∈ (p.setTitle l text).faces) : f ∈ p.faces ∨ f ∈ l.faces := by
  obtain ⟨h, htitle, e⟩ | hf := mem_faces_iff.1 hf
  · cases htitle
    exact .inr (by simp [Layout.faces, e])
  · exact .inl (mem_faces_iff.2 (.inr hf))

theorem mem_faces_of_setComposer {l : Layout α} {p : Page α} {text : String}
    (hf : f ∈ (p.setComposer l text).faces) : f ∈ p.faces ∨ f ∈ l.faces := by
  obtain hf | ⟨h, hcomposer, e⟩ | hf := mem_faces_iff.1 hf
  · exact .inl (mem_faces_iff.2 (.inl hf))
  · cases hcomposer
    exact .inr (by simp [Layout.faces, e])
  · exact .inl (mem_faces_iff.2 (.inr (.inr hf)))

omit [Scalar α] in
theorem mem_faces_of_setCurrentStave {l : Layout α} {p : Page α} {v w : Stave α}
    (hv : p.currentStave? = some v) (hw : f ∈ w.faces → f ∈ v.faces ∨ f ∈ l.faces)
    (hf : f ∈ (p.setCurrentStave w).faces) : f ∈ p.faces ∨ f ∈ l.faces := by
  have hmem {u : Stave α} (hu : u ∈ p.staves) (hf : f ∈ u.faces) : f ∈ p.faces :=
    mem_faces_iff.2 (.inr (.inr ⟨u, hu, hf⟩))
  obtain hf | hf | ⟨u, hu, hf⟩ := mem_faces_iff.1 hf
  · exact .inl (mem_faces_iff.2 (.inl hf))
  · exact .inl (mem_faces_iff.2 (.inr (.inl hf)))
  · obtain hu | hu := List.mem_append.1 hu
    · exact .inl (hmem (List.dropLast_subset _ hu) hf)
    · rw [List.mem_singleton.1 hu] at hf
      exact (hw hf).imp_left (hmem (List.mem_of_getLast? hv))

end Page

/-! ## Scores -/

theorem Page.faces_justify (p : Page α) : p.justify.faces = p.faces := by
  simp only [faces, justify, List.flatMap_map, Stave.faces_justify]

theorem Document.faces_justify (d : Document α) : d.justify.faces = d.faces := by
  simp only [faces, justify, List.flatMap_map, Page.faces_justify]

namespace Score

omit [Scalar α] in
theorem mem_faces_iff {s : Score α} :
    f ∈ s.faces ↔ f ∈ s.layout.faces ∨ ∃ p ∈ s.document.pages, f ∈ p.faces := by
  simp only [faces, Document.faces, List.mem_append, List.mem_flatMap]

omit [Scalar α] in
/-- Putting a page in place of the last one adds nothing if this page has no faces but those of
the last one and of the layout. -/
theorem mem_faces_of_setPage {s : Score α} {p q : Page α} (hp : s.document.currentPage? = some p)
    (hq : f ∈ q.faces → f ∈ p.faces ∨ f ∈ s.layout.faces) (h : f ∈ (s.setPage q).faces) :
    f ∈ s.faces := by
  rw [mem_faces_iff] at h ⊢
  obtain h | ⟨r, hr, h⟩ := h
  · exact .inl h
  · obtain hr | hr := List.mem_append.1 hr
    · exact .inr ⟨r, List.dropLast_subset _ hr, h⟩
    · rw [List.mem_singleton.1 hr] at h
      obtain h | h := hq h
      · exact .inr ⟨p, List.mem_of_getLast? hp, h⟩
      · exact .inl h

/-- A line that can be written adds at most the face that it names. -/
theorem mem_faces_of_wrote {s s' : Score α} {n : NumberedLine} (h : s.Wrote n s')
    (hf : f ∈ s'.faces) : f ∈ s.faces ∨ n.line.face? = some f := by
  cases h with
  | page _ _ =>
    obtain hf | ⟨p, hp, hf⟩ := mem_faces_iff.1 hf
    · exact .inl (mem_faces_iff.2 (.inl hf))
    · obtain hp | hp := List.mem_append.1 hp
      · exact .inl (mem_faces_iff.2 (.inr ⟨p, hp, hf⟩))
      · -- A new page has no faces.
        rw [List.mem_singleton.1 hp] at hf
        cases hf
  | stave _ hp hq => exact .inl (mem_faces_of_setPage hp (Page.mem_faces_of_append hq) hf)
  | title _ hp => exact .inl (mem_faces_of_setPage hp Page.mem_faces_of_setTitle hf)
  | composer _ hp => exact .inl (mem_faces_of_setPage hp Page.mem_faces_of_setComposer hf)
  | onStave _ hv hw =>
    obtain ⟨p, hp, hv, hset⟩ := Document.exists_currentPage hv
    rw [setStave, hset] at hf
    have hacts := Stave.acts_writeLine hw
    refine .inl (mem_faces_of_setPage hp (fun hf => ?_) hf)
    exact Page.mem_faces_of_setCurrentStave hv (Stave.mem_faces_of_acts hacts) hf
  | blank _ _ => exact .inl hf
  | offPage _ hl =>
    obtain hf | hf := List.mem_append.1 hf
    · exact (Layout.mem_faces_of_obey hl hf).imp_left (List.mem_append_left _)
    · exact .inl (List.mem_append_right _ hf)

/-- Lines that can be written add at most the faces that they name. -/
theorem mem_faces_of_stepAll {s s' : Score α} {lines : List NumberedLine}
    (h : s.stepAll lines = .ok s') (hf : f ∈ s'.faces) :
    f ∈ s.faces ∨ ∃ n ∈ lines, n.line.face? = some f := by
  have hP := stepAll_induction
    (P := fun t lines => f ∈ t.faces → f ∈ s.faces ∨ ∃ n ∈ lines, n.line.face? = some f)
    (fun {t t' n lines} ht ih hf => ?_) [] h .inl
  · exact hP hf
  · obtain hf | hf := mem_faces_of_wrote ht hf
    · refine (ih hf).imp_right fun ⟨m, hm, hface⟩ => ?_
      exact ⟨m, List.mem_append_left _ hm, hface⟩
    · exact .inr ⟨n, List.mem_append_right _ (List.mem_singleton_self _), hf⟩

/-- The faces of a document are some of the first layout and of those that its source names. -/
theorem mem_faces_of_parse {source : String} {d : Document α} (h : parse source = .ok d)
    (hf : f ∈ d.faces) :
    f ∈ (Layout.initial : Layout α).faces ∨ ∃ n ∈ Line.tokenize source, n.line.face? = some f := by
  obtain ⟨s, hs, rfl⟩ := parse_eq_ok.1 h
  have hfinish : s.finish.faces = s.document.faces := by
    unfold finish
    split
    · exact s.document.faces_justify
    · rfl
  rw [hfinish] at hf
  refine (mem_faces_of_stepAll hs (List.mem_append_right _ hf)).imp_left fun hf => ?_
  obtain hf | hf := List.mem_append.1 hf
  · exact hf
  · cases hf

end Score

end Tablature
