import Tablature.Proofs.Step

/-!
# Documents only grow

Once something is written it stays as it is: whatever lines are fed to a score
afterwards, and whether they can be written or not, the document that was there
is the beginning of the document that comes of it.

* `Grows`: a list that goes on, in which only the last member may still change;
* `Stave.Extends`, `Page.Extends`, `Document.Extends`: what may still change of a
  stave, a page and a document;
* `extends_feed`: feeding one line extends the document;
* `extends_feedAll`: so does feeding any number of lines, and no stave is padded
  before the document is finished.
-/

namespace Tablature

variable {β : Type}

/-- The list `ys` begins with the members of `xs`: all but the last of them as they were,
and the last as `R` lets it change. -/
def Grows (R : β → β → Prop) (xs ys : List β) : Prop :=
  ∀ i x, xs[i]? = some x → ∃ y, ys[i]? = some y ∧ R x y ∧ (i + 1 < xs.length → y = x)

namespace Grows

variable {R : β → β → Prop}

theorem refl (hR : ∀ x, R x x) (xs : List β) : Grows R xs xs :=
  fun _ x hx => ⟨x, hx, hR x, fun _ => rfl⟩

theorem length_le {xs ys : List β} (h : Grows R xs ys) : xs.length ≤ ys.length := by
  cases hn : xs.length with
  | zero => omega
  | succ n =>
    obtain ⟨y, hy, -⟩ := h n xs[n] (List.getElem?_eq_getElem (by omega))
    have := (List.getElem?_eq_some_iff.1 hy).1
    omega

theorem trans {xs ys zs : List β} (h : Grows R xs ys) (h' : Grows R ys zs)
    (hR : ∀ {x y z}, R x y → R y z → R x z) : Grows R xs zs := by
  intro i x hx
  obtain ⟨y, hy, hxy, ey⟩ := h i x hx
  obtain ⟨z, hz, hyz, ez⟩ := h' i y hy
  refine ⟨z, hz, hR hxy hyz, fun hi => ?_⟩
  have := h.length_le
  rw [ez (by omega), ey hi]

/-- A list grows by what is put behind it. -/
theorem append (hR : ∀ x, R x x) (xs ys : List β) : Grows R xs (xs ++ ys) := by
  intro i x hx
  have hi := (List.getElem?_eq_some_iff.1 hx).1
  exact ⟨x, by rw [List.getElem?_append_left hi, hx], hR x, fun _ => rfl⟩

/-- A list grows by a change of its last member. -/
theorem dropLast_concat (hR : ∀ x, R x x) {xs : List β} {x y : β} (hx : xs.getLast? = some x)
    (hxy : R x y) : Grows R xs (xs.dropLast ++ [y]) := by
  obtain ⟨init, rfl⟩ := List.getLast?_eq_some_iff.1 hx
  rw [List.dropLast_concat]
  intro i z hz
  have hi := (List.getElem?_eq_some_iff.1 hz).1
  rw [List.length_append, List.length_singleton] at hi
  by_cases hl : i < init.length
  · rw [List.getElem?_append_left hl] at hz ⊢
    exact ⟨z, hz, hR z, fun _ => rfl⟩
  · obtain rfl : i = init.length := by omega
    rw [List.getElem?_concat_length] at hz ⊢
    cases hz
    exact ⟨y, rfl, hxy, fun h => by simp at h⟩

end Grows

variable {α : Type}

/-- What may still change of the stave that is being written: glyphs are added behind those
there are, the cursor goes on, and the open slur is free. -/
structure Stave.Extends (v w : Stave α) : Prop where
  toGrid : w.toGrid = v.toGrid
  first : w.first = v.first
  labels : w.labels = v.labels
  padding : w.padding = v.padding
  glyphs : v.glyphs <+: w.glyphs
  cursor : v.cursor ≤ w.cursor

/-- What may still change of the page that is being written: its title and its composer, the
stave that is being written, and the staves below it. -/
structure Page.Extends (p q : Page α) : Prop where
  number : q.number = p.number
  first : q.first = p.first
  width : q.width = p.width
  height : q.height = p.height
  topMargin : q.topMargin = p.topMargin
  leftMargin : q.leftMargin = p.leftMargin
  rightMargin : q.rightMargin = p.rightMargin
  staveSeparation : q.staveSeparation = p.staveSeparation
  staves : Grows Stave.Extends p.staves q.staves

/-- What may still change of a document: its last page, and the pages behind it. -/
def Document.Extends (d e : Document α) : Prop := Grows Page.Extends d.pages e.pages

namespace Stave.Extends

theorem refl (v : Stave α) : v.Extends v := ⟨rfl, rfl, rfl, rfl, List.prefix_rfl, Nat.le_refl _⟩

theorem trans {u v w : Stave α} (h : u.Extends v) (h' : v.Extends w) : u.Extends w :=
  ⟨h'.toGrid.trans h.toGrid, h'.first.trans h.first, h'.labels.trans h.labels,
    h'.padding.trans h.padding, h.glyphs.trans h'.glyphs, Nat.le_trans h.cursor h'.cursor⟩

end Stave.Extends

namespace Page.Extends

theorem refl (p : Page α) : p.Extends p :=
  ⟨rfl, rfl, rfl, rfl, rfl, rfl, rfl, rfl, .refl .refl _⟩

theorem trans {p q r : Page α} (h : p.Extends q) (h' : q.Extends r) : p.Extends r :=
  ⟨h'.number.trans h.number, h'.first.trans h.first, h'.width.trans h.width,
    h'.height.trans h.height, h'.topMargin.trans h.topMargin, h'.leftMargin.trans h.leftMargin,
    h'.rightMargin.trans h.rightMargin, h'.staveSeparation.trans h.staveSeparation,
    h.staves.trans h'.staves Stave.Extends.trans⟩

theorem setCurrentStave {p : Page α} {v w : Stave α} (hv : p.currentStave? = some v)
    (h : v.Extends w) : p.Extends (p.setCurrentStave w) :=
  ⟨rfl, rfl, rfl, rfl, rfl, rfl, rfl, rfl, .dropLast_concat .refl hv h⟩

end Page.Extends

namespace Document.Extends

theorem refl (d : Document α) : d.Extends d := Grows.refl .refl _

theorem trans {d e f : Document α} (h : d.Extends e) (h' : e.Extends f) : d.Extends f :=
  Grows.trans h h' Page.Extends.trans

theorem addPage (d : Document α) (p : Page α) : d.Extends (d.addPage p) := Grows.append .refl _ _

theorem setCurrentPage {d : Document α} {p q : Page α} (hp : d.currentPage? = some p)
    (h : p.Extends q) : d.Extends (d.setCurrentPage q) :=
  Grows.dropLast_concat .refl hp h

theorem setCurrentStave {d : Document α} {v w : Stave α} (hv : d.currentStave? = some v)
    (h : v.Extends w) : d.Extends (d.setCurrentStave w) := by
  obtain ⟨p, hp, hv, hset⟩ := exists_currentPage hv
  rw [hset]
  exact setCurrentPage hp (.setCurrentStave hv h)

end Document.Extends

variable [Scalar α]

/-! ## One line -/

theorem Stave.extends_of_act {l : Layout α} {v w : Stave α} (h : Act l v w) : v.Extends w := by
  cases h with
  | place _ => exact ⟨rfl, rfl, rfl, rfl, List.prefix_append _ _, Nat.le_refl _⟩
  | advance slots => exact ⟨rfl, rfl, rfl, rfl, List.prefix_rfl, Nat.le_add_right _ _⟩
  | beginSlur _ => exact ⟨rfl, rfl, rfl, rfl, List.prefix_rfl, Nat.le_refl _⟩
  | endSlur _ h =>
    obtain ⟨start, -, rfl⟩ := Option.map_eq_some_iff.1 h
    exact ⟨rfl, rfl, rfl, rfl, List.prefix_append _ _, Nat.le_refl _⟩
  | dropSlur => exact ⟨rfl, rfl, rfl, rfl, List.prefix_rfl, Nat.le_refl _⟩

theorem Stave.Acts.extends {l : Layout α} {v w : Stave α} (h : Acts l v w) : v.Extends w :=
  h.invariant (fun ha hv => hv.trans (extends_of_act ha)) (.refl v)

/-- A stave is appended below the others. -/
theorem Page.extends_append {p q : Page α} {v : Stave α} (h : p.append v = .ok q) :
    p.Extends q := by
  obtain ⟨-, rfl⟩ := Page.append_eq_ok.1 h
  exact ⟨rfl, rfl, rfl, rfl, rfl, rfl, rfl, rfl, .append .refl _ _⟩

theorem Score.Wrote.extends {s s' : Score α} {n : NumberedLine} (h : s.Wrote n s') :
    s.document.Extends s'.document := by
  cases h with
  | page _ _ => exact .addPage _ _
  | stave _ hp hq => exact .setCurrentPage hp (Page.extends_append hq)
  | title _ hp | composer _ hp =>
    exact .setCurrentPage hp ⟨rfl, rfl, rfl, rfl, rfl, rfl, rfl, rfl, .refl .refl _⟩
  | onStave _ hv hw => exact .setCurrentStave hv (Stave.acts_writeLine hw).extends
  | blank _ _ | offPage _ _ => exact .refl _

/-- Feeding a line extends the document. -/
theorem Score.extends_feed (s : Score α) (n : NumberedLine) :
    s.document.Extends (s.feed n).1.document := by
  obtain h | h | ⟨v, w, hv, h, e⟩ := s.feed_cases n
  · exact h.extends
  · rw [h]; exact .refl _
  · rw [e]; exact .setCurrentStave hv h.extends

/-! ## Any number of lines -/

/-- Acts do not pad. -/
theorem Stave.padding_eq_none_of_act {l : Layout α} {v w : Stave α} (h : Act l v w)
    (hv : v.padding = none) : w.padding = none :=
  (extends_of_act h).padding.trans hv

/-- No stave is padded before the document is finished. -/
theorem Page.invariant_unpadded :
    Page.Invariant (α := α) fun p => ∀ v ∈ p.staves, v.padding = none :=
  .ofStaves (fun _ _ _ _ _ => rfl) Stave.padding_eq_none_of_act

/-- Whatever lines are fed to a score, written or not, the document it had is the beginning
of the document it has then; and a score that began empty has no padded stave. -/
theorem Score.extends_feedAll (s : Score α) (lines : List NumberedLine) :
    s.document.Extends (s.feedAll lines).document ∧
      ∀ p ∈ ((empty : Score α).feedAll lines).document.pages, ∀ v ∈ p.staves, v.padding = none := by
  constructor
  · induction lines generalizing s with
    | nil => exact .refl _
    | cons n lines ih => exact (s.extends_feed n).trans (ih _)
  · exact Page.invariant_unpadded.feedAll lines fun p hp => by cases hp

end Tablature
