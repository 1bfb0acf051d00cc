import Mathlib.Data.List.Forall2
import Tablature.Proofs.Step

/-!
# The lines of a stave

A source can be read without running it: the lines behind a page line belong to
that page, and those of them behind a stave line to that stave. Writing agrees with
this reading.

* `sections`: a list cut at the members that begin something;
* `Document.Follows`: the pages and staves of a document are those of some lines,
  and every stave is related to its own lines;
* `Stave.Reading`: what has to be shown of such a relation, line by line;
* `Reading.stepAll`: a relation of which this is shown holds of every stave that a
  run of lines writes.
-/

namespace Tablature

variable {β γ : Type}

/-- What stands behind each member that `begins` something, up to the next one. What stands
before the first is left out. -/
def sections (begins : β → Bool) (xs : List β) : List (List β) := (xs.splitOnP begins).tail

section

variable (begins : β → Bool) (xs : List β) {x : β}

/-- A member that begins something begins an empty section. -/
theorem sections_concat_of_pos (hx : begins x = true) :
    sections begins (xs ++ [x]) = sections begins xs ++ [[]] := by
  unfold sections
  rw [List.splitOnP_append_cons xs [] hx, List.tail_append_of_ne_nil (List.splitOnP_ne_nil _ _)]
  rfl

theorem splitOnP_concat_of_neg (hx : begins x = false) : ∃ init last,
    xs.splitOnP begins = init ++ [last] ∧ (xs ++ [x]).splitOnP begins = init ++ [last ++ [x]] := by
  induction xs with
  | nil => exact ⟨[], [], rfl, by simp [List.splitOnP_cons_eq_if_modifyHead, hx]⟩
  | cons y ys ih =>
    obtain ⟨init, last, e, e'⟩ := ih
    simp only [List.cons_append, List.splitOnP_cons_eq_if_modifyHead, e, e']
    split
    · exact ⟨[] :: init, last, rfl, rfl⟩
    · cases init with
      | nil => exact ⟨[], y :: last, rfl, rfl⟩
      | cons z zs => exact ⟨(y :: z) :: zs, last, rfl, rfl⟩

/-- Any other member goes to the last section, if there is one. -/
theorem sections_concat_of_neg (hx : begins x = false) :
    sections begins xs = [] ∧ sections begins (xs ++ [x]) = [] ∨ ∃ init last,
      sections begins xs = init ++ [last] ∧ sections begins (xs ++ [x]) = init ++ [last ++ [x]] := by
  obtain ⟨init, last, e, e'⟩ := splitOnP_concat_of_neg begins xs hx
  unfold sections
  rw [e, e']
  cases init with
  | nil => exact .inl ⟨rfl, rfl⟩
  | cons y ys => exact .inr ⟨ys, last, rfl, rfl⟩

end

/-! ## Lists of which the last member is revised -/

/-- The lists differ at most in their last members, which are related by `T`. -/
inductive Revised (T : β → β → Prop) : List β → List β → Prop where
  | nil : Revised T [] []
  | concat {init : List β} {x y : β} : T x y → Revised T (init ++ [x]) (init ++ [y])

namespace Revised

variable {T : β → β → Prop}

theorem of_getLast? {xs : List β} (h : ∀ x, xs.getLast? = some x → T x x) : Revised T xs xs := by
  cases hx : xs.getLast? with
  | none => rw [List.getLast?_eq_none_iff.1 hx]; exact .nil
  | some x =>
    obtain ⟨init, rfl⟩ := List.getLast?_eq_some_iff.1 hx
    exact .concat (h x hx)

theorem dropLast_concat {xs : List β} {x y : β} (hx : xs.getLast? = some x) (h : T x y) :
    Revised T xs (xs.dropLast ++ [y]) := by
  obtain ⟨init, rfl⟩ := List.getLast?_eq_some_iff.1 hx
  rw [List.dropLast_concat]
  exact .concat h

theorem imp {U : β → β → Prop} {xs ys : List β} (h : Revised T xs ys)
    (hTU : ∀ x y, T x y → U x y) : Revised U xs ys := by
  cases h with
  | nil => exact .nil
  | concat h => exact .concat (hTU _ _ h)

end Revised

theorem forall₂_concat_iff {R : β → γ → Prop} {xs : List β} {ys : List γ} {x : β} {y : γ} :
    List.Forall₂ R (xs ++ [x]) (ys ++ [y]) ↔ List.Forall₂ R xs ys ∧ R x y := by
  rw [← List.forall₂_reverse_iff]
  simp [and_comm]

theorem forall_right_of_forall₂ {R : β → γ → Prop} {Q : γ → Prop} {xs : List β} {ys : List γ}
    (h : List.Forall₂ R xs ys) (hRQ : ∀ x y, R x y → Q y) : ∀ y ∈ ys, Q y := by
  induction h with
  | nil => simp
  | cons hxy _ ih => simpa using ⟨hRQ _ _ hxy, ih⟩

/-- A new member of one list answers to a new section of the other. -/
theorem forall₂_sections_of_pos {R : β → List γ → Prop} {begins : γ → Bool} {xs : List β} {x : β}
    {zs : List γ} {z : γ} (hz : begins z = true) (h : List.Forall₂ R xs (sections begins zs))
    (hx : R x []) : List.Forall₂ R (xs ++ [x]) (sections begins (zs ++ [z])) := by
  rw [sections_concat_of_pos begins zs hz]
  exact forall₂_concat_iff.2 ⟨h, hx⟩

/-- If the one list has a last member, the other has a last section, and a member that begins
nothing goes to it. -/
theorem sections_of_concat {R : β → List γ → Prop} {begins : γ → Bool} {front : List β} {x : β}
    {zs : List γ} {z : γ} (h : List.Forall₂ R (front ++ [x]) (sections begins zs))
    (hz : begins z = false) : ∃ init last, sections begins zs = init ++ [last] ∧
      sections begins (zs ++ [z]) = init ++ [last ++ [z]] ∧ List.Forall₂ R front init ∧
      R x last := by
  obtain ⟨e, -⟩ | ⟨init, last, e, e'⟩ := sections_concat_of_neg begins zs hz
  · rw [e, List.forall₂_nil_right_iff] at h
    exact absurd h (List.concat_ne_nil _ _)
  · rw [e] at h
    obtain ⟨h, hx⟩ := forall₂_concat_iff.1 h
    exact ⟨init, last, e, e', h, hx⟩

/-- A revised last member of one list answers to a longer last section of the other. -/
theorem forall₂_sections_of_neg {R : β → List γ → Prop} {begins : γ → Bool} {xs ys : List β}
    {zs : List γ} {z : γ} (hz : begins z = false) (h : List.Forall₂ R xs (sections begins zs))
    (hxy : Revised (fun x y => ∀ s, R x s → R y (s ++ [z])) xs ys) :
    List.Forall₂ R ys (sections begins (zs ++ [z])) := by
  cases hxy with
  | nil =>
    obtain ⟨-, e'⟩ | ⟨init, last, e, -⟩ := sections_concat_of_neg begins zs hz
    · rw [e']
      exact .nil
    · rw [e, List.forall₂_nil_left_iff] at h
      exact absurd h (List.concat_ne_nil _ _)
  | concat hT =>
    obtain ⟨init, last, -, e', h, hx⟩ := sections_of_concat h hz
    rw [e']
    exact forall₂_concat_iff.2 ⟨h, hT _ hx⟩

/-! ## Pages and staves -/

/-- The lines of each page, without the page lines. -/
def pageSections (lines : List NumberedLine) : List (List NumberedLine) :=
  sections (fun n => n.line.beginsPage) lines

/-- The lines of each stave among the lines of one page, without the stave lines. -/
def staveSections (lines : List NumberedLine) : List (List NumberedLine) :=
  sections (fun n => n.line.beginsStave) lines

/-- The lines of each stave of a source, whatever its page. -/
def staveLines (lines : List NumberedLine) : List (List NumberedLine) :=
  (pageSections lines).flatMap staveSections

/-- A line changes nothing there, begins the lines of a stave, or goes to those of the last
one. -/
theorem staveLines_concat (lines : List NumberedLine) (n : NumberedLine) :
    staveLines (lines ++ [n]) = staveLines lines ∨
      staveLines (lines ++ [n]) = staveLines lines ++ [[]] ∨
      ∃ init last, staveLines lines = init ++ [last] ∧
        staveLines (lines ++ [n]) = init ++ [last ++ [n]] := by
  unfold staveLines
  cases hpage : n.line.beginsPage with
  | true =>
    left
    rw [pageSections, sections_concat_of_pos _ lines hpage, List.flatMap_append]
    exact List.append_nil _
  | false =>
    obtain ⟨e, e'⟩ | ⟨pages, page, e, e'⟩ :=
      sections_concat_of_neg (fun n : NumberedLine => n.line.beginsPage) lines hpage
    · left
      rw [pageSections, pageSections, e, e']
    rw [pageSections, pageSections, e, e', List.flatMap_append, List.flatMap_append,
      List.flatMap_singleton, List.flatMap_singleton]
    cases hstave : n.line.beginsStave with
    | true =>
      right; left
      rw [staveSections, sections_concat_of_pos _ page hstave, List.append_assoc]
      rfl
    | false =>
      obtain ⟨f, f'⟩ | ⟨staves, stave, f, f'⟩ :=
        sections_concat_of_neg (fun n : NumberedLine => n.line.beginsStave) page hstave
      · left
        rw [staveSections, staveSections, f, f']
      · right; right
        rw [staveSections, staveSections, f, f', ← List.append_assoc, ← List.append_assoc]
        exact ⟨_, stave, rfl, rfl⟩

variable {α : Type} {R : Stave α → List NumberedLine → Prop}

/-- The staves of a page are those of its lines, in order, each related to its own lines. -/
def Page.Follows (R : Stave α → List NumberedLine → Prop) (p : Page α)
    (lines : List NumberedLine) : Prop :=
  List.Forall₂ R p.staves (staveSections lines)

/-- The pages of a document are those of some lines, in order, and so are their staves. -/
def Document.Follows (R : Stave α → List NumberedLine → Prop) (d : Document α)
    (lines : List NumberedLine) : Prop :=
  List.Forall₂ (Page.Follows R) d.pages (pageSections lines)

/-- A line that begins neither a page nor a stave goes to the last stave of the last page. -/
theorem Document.Follows.concat {d e : Document α} {lines : List NumberedLine} {n : NumberedLine}
    (h : d.Follows R lines) (hpage : n.line.beginsPage = false)
    (hstave : n.line.beginsStave = false)
    (hde : Revised (fun p q => Revised (fun v w => ∀ s, R v s → R w (s ++ [n])) p.staves q.staves)
      d.pages e.pages) :
    e.Follows R (lines ++ [n]) :=
  forall₂_sections_of_neg hpage h (hde.imp fun _ _ hpq _ hp => forall₂_sections_of_neg hstave hp hpq)

/-- What the relation tells of the lines of a stave holds of those of every stave. -/
theorem Document.Follows.forall_staveLines {d : Document α} {lines : List NumberedLine}
    {Q : List NumberedLine → Prop} (h : d.Follows R lines) (hRQ : ∀ v ls, R v ls → Q ls) :
    ∀ ls ∈ staveLines lines, Q ls := by
  intro ls hls
  obtain ⟨page, hpage, hls⟩ := List.mem_flatMap.1 hls
  have hp := forall_right_of_forall₂ h
    (fun _ _ (hp : Page.Follows R _ _) => forall_right_of_forall₂ hp hRQ) page hpage
  exact hp ls hls

/-- If there is a current stave, its lines are the last ones. -/
theorem Document.Follows.staveLines_of_currentStave {d : Document α} {lines : List NumberedLine}
    {n : NumberedLine} {v : Stave α} (h : d.Follows R lines) (hv : d.currentStave? = some v)
    (hpage : n.line.beginsPage = false) (hstave : n.line.beginsStave = false) :
    ∃ init last, staveLines lines = init ++ [last] ∧
      staveLines (lines ++ [n]) = init ++ [last ++ [n]] ∧ R v last := by
  obtain ⟨p, hp, hv⟩ := Option.bind_eq_some_iff.1 hv
  obtain ⟨_, ep⟩ := List.getLast?_eq_some_iff.1 hp
  obtain ⟨_, ev⟩ := List.getLast?_eq_some_iff.1 hv
  rw [Document.Follows, ep] at h
  obtain ⟨pages, page, e, e', -, hpp⟩ := sections_of_concat h hpage
  rw [Page.Follows, ev] at hpp
  obtain ⟨staves, stave, f, f', -, hvs⟩ := sections_of_concat hpp hstave
  unfold staveLines pageSections
  rw [e, e', List.flatMap_append, List.flatMap_append, List.flatMap_singleton,
    List.flatMap_singleton]
  unfold staveSections
  rw [f, f', ← List.append_assoc, ← List.append_assoc]
  exact ⟨_, stave, rfl, rfl, hvs⟩

variable [Scalar α]

/-- Finishing a score changes its staves at most by justifying them. -/
theorem Document.Follows.finish {s : Score α} {lines : List NumberedLine}
    (h : s.document.Follows R lines) (hR : ∀ {v s}, R v s → R v.justify s) :
    s.finish.Follows R lines := by
  unfold Score.finish
  split
  · refine List.forall₂_map_left_iff.2 (h.imp fun p ls hp => ?_)
    exact List.forall₂_map_left_iff.2 (hp.imp fun _ _ => hR)
  · exact h

/-- What has to be shown of a relation between staves and their lines: it holds of a stave
with no lines, and each line keeps it. -/
structure Stave.Reading (R : Stave α → List NumberedLine → Prop) : Prop where
  begin (l : Layout α) (first : Bool) (x y length : α) :
    R ((blank l first).moveTo x y length) []
  line {l : Layout α} {v w : Stave α} {n : NumberedLine} {lines : List NumberedLine} :
    R v lines → v.writeLine l n = .ok w → R w (lines ++ [n])

namespace Stave.Reading

variable (hR : Reading R)

include hR

/-- A line that is not written on staves may stand among the lines of any. -/
theorem off_stave {n : NumberedLine} (hn : n.line.isOnStave = false) {v : Stave α}
    {s : List NumberedLine} (h : R v s) : R v (s ++ [n]) :=
  hR.line h (writeLine_of_not_isOnStave (l := Layout.initial) hn)

theorem wrote {s s' : Score α} {n : NumberedLine} {lines : List NumberedLine} (h : s.Wrote n s')
    (hs : s.document.Follows R lines) : s'.document.Follows R (lines ++ [n]) := by
  cases h with
  | page hn _ =>
    refine forall₂_sections_of_pos ?_ hs .nil
    rw [hn]; rfl
  | stave hn hp hq =>
    have hpage : n.line.beginsPage = false := by rw [hn]; rfl
    have hstave : n.line.beginsStave = true := by rw [hn]; rfl
    refine forall₂_sections_of_neg hpage hs (.dropLast_concat hp fun t ht => ?_)
    obtain ⟨-, rfl⟩ := Page.append_eq_ok.1 hq
    exact forall₂_sections_of_pos hstave ht (hR.begin _ _ _ _ _)
  | title hn hp | composer hn hp =>
    have hpage : n.line.beginsPage = false := by rw [hn]; rfl
    have hstave : n.line.beginsStave = false := by rw [hn]; rfl
    have hon : n.line.isOnStave = false := by rw [hn]; rfl
    exact hs.concat hpage hstave
      (.dropLast_concat hp (.of_getLast? fun _ _ _ hv => hR.off_stave hon hv))
  | onStave hn hv hw =>
    obtain ⟨hpage, hstave⟩ := Line.begins_of_isOnStave hn
    obtain ⟨p, hp, hv, hset⟩ := Document.exists_currentPage hv
    refine hs.concat hpage hstave ?_
    rw [Score.setStave, hset]
    exact .dropLast_concat hp (.dropLast_concat hv fun _ hs => hR.line hs hw)
  | blank hn hnone =>
    have hpage : n.line.beginsPage = false := by rw [hn]; rfl
    have hstave : n.line.beginsStave = false := by rw [hn]; rfl
    refine hs.concat hpage hstave (.of_getLast? fun p hp => .of_getLast? fun v hv => ?_)
    rw [Document.currentStave?, Document.currentPage?, hp, Option.bind_some] at hnone
    exact absurd (hv.symm.trans hnone) (Option.some_ne_none v)
  | offPage hn _ =>
    obtain ⟨hpage, hstave, hon⟩ := Line.begins_of_isOffPage hn
    exact hs.concat hpage hstave
      (.of_getLast? fun _ _ => .of_getLast? fun _ _ _ hv => hR.off_stave hon hv)

/-- Lines that can all be written, behind those that a document was written from. -/
theorem stepAll {s s' : Score α} {before lines : List NumberedLine} (h : s.stepAll lines = .ok s')
    (hs : s.document.Follows R before) : s'.document.Follows R (before ++ lines) :=
  Score.stepAll_induction (P := fun s lines => s.document.Follows R lines) hR.wrote before h hs

/-- The staves of a score that began empty are those of its lines. -/
theorem follows {s : Score α} {lines : List NumberedLine}
    (h : (Score.empty : Score α).stepAll lines = .ok s) : s.document.Follows R lines := by
  have hnil : (Score.empty : Score α).document.Follows R [] := .nil
  exact hR.stepAll h hnil

end Stave.Reading

end Tablature
