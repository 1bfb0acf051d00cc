import Tablature.Proofs.Change

/-!
# How a stave is begun

A stave takes its measures, its courses and its labels from the layout in force at
its stave line, and keeps them to the end. So the lines before that line tell what
they are. Only the first stave on the first page is the first of its document, and
it alone may carry labels: where the first page has no stave, no stave is the first.

* `Stave.plan`: what a stave is begun with;
* `Wrote.planned`: what a line adds to the plans of a document;
* `Begins`: each stave is begun with the layout that the lines before it give, and
  the first on the first page is marked;
* `first_of_parse`: which stave of a document is marked and labelled.
-/

namespace Tablature

variable {α β : Type}

/-- If a property holds of the first member of the first row alone, then in the rows put end to end
it holds of the first member at most, and only if the first row has one. -/
theorem flatten_first_iff {Q : β → Prop} {rows : List (List β)}
    (h : ∀ {i j : Nat} {row : List β} {x : β}, rows[i]? = some row → row[j]? = some x →
      (Q x ↔ i = 0 ∧ j = 0))
    {k : Nat} {x : β} (hx : rows.flatten[k]? = some x) :
    Q x ↔ k = 0 ∧ ∃ row, rows.head? = some row ∧ row ≠ [] := by
  cases rows with
  | nil => simp at hx
  | cons row rows =>
    have hlater : ∀ y ∈ rows.flatten, ¬ Q y := by
      intro y hy
      obtain ⟨later, hlater, hy⟩ := List.mem_flatten.1 hy
      obtain ⟨i, hi⟩ := List.mem_iff_getElem?.1 hlater
      obtain ⟨j, hj⟩ := List.mem_iff_getElem?.1 hy
      have hi : (row :: rows)[i + 1]? = some later := hi
      rw [h hi hj]
      omega
    cases row with
    | nil =>
      have hnot : ¬ Q x := hlater x (List.mem_of_getElem? hx)
      simpa using hnot
    | cons y ys =>
      cases k with
      | zero =>
        obtain rfl : y = x := by simpa using hx
        have hy : Q y := (h (i := 0) (j := 0) rfl rfl).2 ⟨rfl, rfl⟩
        simpa using hy
      | succ k =>
        have hnot : ¬ Q x := by
          rw [List.flatten_cons, List.cons_append, List.getElem?_cons_succ] at hx
          rcases List.mem_append.1 (List.mem_of_getElem? hx) with hx | hx
          · obtain ⟨j, hj⟩ := List.mem_iff_getElem?.1 hx
            have hj : (y :: ys)[j + 1]? = some x := hj
            rw [h (i := 0) rfl hj]
            omega
          · exact hlater x hx
        simpa using hnot

/-- What stands before a stave line that has `k` others in front of it. -/
def IsBeforeStave (lines : List NumberedLine) (k : Nat) (before : List NumberedLine) : Prop :=
  ∃ n after, lines = before ++ n :: after ∧ n.line.beginsStave = true ∧
    before.countP (·.line.beginsStave) = k

namespace IsBeforeStave

variable {lines before : List NumberedLine} {n : NumberedLine} {k : Nat}

theorem concat (h : IsBeforeStave lines k before) : IsBeforeStave (lines ++ [n]) k before := by
  obtain ⟨m, after, rfl, hm, hk⟩ := h
  exact ⟨m, after ++ [n], by simp, hm, hk⟩

theorem last (lines : List NumberedLine) (hn : n.line.beginsStave = true) :
    IsBeforeStave (lines ++ [n]) (lines.countP (·.line.beginsStave)) lines :=
  ⟨n, [], rfl, hn, rfl⟩

end IsBeforeStave

/-- The staves of a document in reading order. -/
def Document.staves (d : Document α) : List (Stave α) := d.pages.flatMap Page.staves

variable [Scalar α]

/-! ## Plans -/

/-- What a stave is begun with, before it is put on a page and anything is written on it. -/
def Stave.plan (v : Stave α) : Stave α :=
  { v with
    x := 0.0
    y := 0.0
    length := 0.0
    cursor := 0
    glyphs := []
    openSlur := none
    padding := none }

theorem Stave.plan_of_act {l : Layout α} {v w : Stave α} (h : Act l v w) : w.plan = v.plan := by
  cases h with
  | place _ | advance _ | beginSlur _ | dropSlur => rfl
  | endSlur _ h =>
    obtain ⟨start, -, rfl⟩ := Option.map_eq_some_iff.1 h
    rfl

theorem Stave.plan_of_acts {l : Layout α} {v w : Stave α} (h : Acts l v w) : w.plan = v.plan :=
  h.invariant (P := fun w => w.plan = v.plan) (fun h hv => (plan_of_act h).trans hv) rfl

@[simp]
theorem Stave.plan_justify (v : Stave α) : v.justify.plan = v.plan := by
  unfold justify
  split <;> rfl

@[simp]
theorem Stave.plan_moveTo (v : Stave α) (x y length : α) : (v.moveTo x y length).plan = v.plan := rfl

/-- The plans of the staves of a page. -/
def Page.plans (p : Page α) : List (Stave α) := p.staves.map Stave.plan

namespace Document

/-- The plans of the staves, page by page. -/
def plans (d : Document α) : List (List (Stave α)) := d.pages.map Page.plans

theorem flatten_plans (d : Document α) : d.plans.flatten = d.staves.map Stave.plan := by
  simp only [plans, staves, List.flatMap_def, List.map_flatten, List.map_map]
  rfl

theorem getElem?_flatten_plans {d : Document α} {k : Nat} {v : Stave α}
    (hv : d.staves[k]? = some v) : d.plans.flatten[k]? = some v.plan := by
  rw [flatten_plans, List.getElem?_map, hv]
  rfl

theorem plans_setCurrentPage {d : Document α} {p q : Page α} (hp : d.currentPage? = some p)
    (h : q.plans = p.plans) : (d.setCurrentPage q).plans = d.plans :=
  map_setCurrentPage hp h

@[simp]
theorem plans_justify (d : Document α) : d.justify.plans = d.plans := by
  simp [plans, Page.plans, justify, Page.justify, Function.comp_def]

end Document

namespace Score

@[simp]
theorem plans_finish (s : Score α) : s.finish.plans = s.document.plans := by
  unfold finish
  split
  · exact Document.plans_justify _
  · rfl

/-- What a line makes of the plans of a document. -/
inductive Planned (s : Score α) (n : NumberedLine) : List (List (Stave α)) → Prop where
  | page : n.line.beginsStave = false → Planned s n (s.document.plans ++ [[]])
  | stave {pages : List (List (Stave α))} {page : List (Stave α)} : n.line.beginsStave = true →
    s.document.plans = pages ++ [page] →
    Planned s n (pages ++ [page ++ [(Stave.blank s.layout (pages.isEmpty && page.isEmpty)).plan]])
  | kept : n.line.beginsStave = false → Planned s n s.document.plans

theorem Wrote.planned {s s' : Score α} {n : NumberedLine} (h : s.Wrote n s') :
    s.Planned n s'.document.plans := by
  cases h with
  | @page _ number hn _ =>
    have hplans : (s.addPage number).document.plans = s.document.plans ++ [[]] := by
      simp [addPage, Document.addPage, Document.plans, Page.plans, Page.blank]
    rw [hplans]
    exact .page (by rw [hn]; rfl)
  | @stave p q hn hp hq =>
    obtain ⟨-, rfl⟩ := Page.append_eq_ok.1 hq
    obtain ⟨pages, hpages⟩ := List.getLast?_eq_some_iff.1 hp
    have hfirst : s.beforeFirstStave p = ((pages.map Page.plans).isEmpty && p.plans.isEmpty) := by
      unfold beforeFirstStave Page.plans
      rw [hpages]
      cases pages <;> cases p.staves <;> simp
    have hplans : s.document.plans = pages.map Page.plans ++ [p.plans] := by
      simp [Document.plans, hpages]
    have hnew := Planned.stave (s := s) (n := n) (by rw [hn]; rfl) hplans
    rw [← hfirst] at hnew
    simpa [setPage, Document.setCurrentPage, Document.plans, Page.plans, hpages] using hnew
  | title hn hp | composer hn hp =>
    rw [setPage, Document.plans_setCurrentPage hp]
    · exact .kept (by rw [hn]; rfl)
    · rfl
  | @onStave v w hn hv hw =>
    obtain ⟨p, hp, hv, hset⟩ := Document.exists_currentPage hv
    have hplan := Stave.plan_of_acts (Stave.acts_writeLine hw)
    rw [setStave, hset, Document.plans_setCurrentPage hp (Page.map_setCurrentStave hv hplan)]
    exact .kept (Line.begins_of_isOnStave hn).2
  | blank hn _ => exact .kept (by rw [hn]; rfl)
  | offPage hn _ => exact .kept (Line.begins_of_isOffPage hn).2.1

end Score

/-! ## The first stave -/

/-- The plans, page by page, that lines come to: a stave for each stave line, begun with the layout
that the lines before it give, and marked if it is the first on the first page. -/
structure Begins (plans : List (List (Stave α))) (lines : List NumberedLine) : Prop where
  count : plans.flatten.length = lines.countP (·.line.beginsStave)
  begun {k : Nat} {u : Stave α} : plans.flatten[k]? = some u → ∃ before l,
    IsBeforeStave lines k before ∧ Layout.initial.obeyAll before = .ok l ∧
      u = (Stave.blank l u.first).plan
  first {i j : Nat} {page : List (Stave α)} {u : Stave α} : plans[i]? = some page →
    page[j]? = some u → (u.first = true ↔ i = 0 ∧ j = 0)

namespace Begins

variable {plans : List (List (Stave α))} {pages : List (List (Stave α))} {page : List (Stave α)}
  {lines : List NumberedLine} {n : NumberedLine}

/-- A line that begins no stave changes nothing. -/
theorem concat (h : Begins plans lines) (hn : n.line.beginsStave = false) :
    Begins plans (lines ++ [n]) where
  count := by
    rw [h.count, countP_concat_of_neg hn]
  begun hu := by
    obtain ⟨before, l, hbefore, hl⟩ := h.begun hu
    exact ⟨before, l, hbefore.concat, hl⟩
  first := h.first

/-- Nor does a page without staves. -/
theorem addPage (h : Begins plans lines) : Begins (plans ++ [[]]) lines where
  count := by
    rw [List.flatten_append, List.flatten_singleton, List.append_nil, h.count]
  begun hu := by
    rw [List.flatten_append, List.flatten_singleton, List.append_nil] at hu
    exact h.begun hu
  first hpage hu := by
    obtain hpage | ⟨-, rfl⟩ := getElem?_concat_eq_some hpage
    · exact h.first hpage hu
    · cases hu

theorem addStave (h : Begins (pages ++ [page]) lines) (hn : n.line.beginsStave = true)
    {l : Layout α} (hl : Layout.initial.obeyAll lines = .ok l) :
    Begins (pages ++ [page ++ [(Stave.blank l (pages.isEmpty && page.isEmpty)).plan]])
      (lines ++ [n]) := by
  have hflatten (u : Stave α) :
      (pages ++ [page ++ [u]]).flatten = (pages ++ [page]).flatten ++ [u] := by
    simp
  refine ⟨?_, fun {k u} hu => ?_, fun {i j row u} hrow hu => ?_⟩
  · rw [hflatten, List.length_append, h.count, countP_concat_of_pos hn, List.length_singleton]
  · rw [hflatten] at hu
    obtain hu | ⟨rfl, rfl⟩ := getElem?_concat_eq_some hu
    · obtain ⟨before, l, hbefore, hl⟩ := h.begun hu
      exact ⟨before, l, hbefore.concat, hl⟩
    · rw [h.count]
      exact ⟨lines, l, .last lines hn, hl, rfl⟩
  · obtain hrow | ⟨rfl, rfl⟩ := getElem?_concat_eq_some hrow
    · exact h.first (List.getElem?_append_left (List.getElem?_eq_some_iff.1 hrow).1 ▸ hrow) hu
    · obtain hu | ⟨rfl, rfl⟩ := getElem?_concat_eq_some hu
      · exact h.first List.getElem?_concat_length hu
      · have hfirst (b : Bool) : (Stave.blank l b).plan.first = b := rfl
        rw [hfirst, Bool.and_eq_true, List.isEmpty_iff, List.isEmpty_iff, List.length_eq_zero_iff,
          List.length_eq_zero_iff]

theorem planned {s : Score α} {plans : List (List (Stave α))} (h : Begins s.document.plans lines)
    (hl : Layout.initial.obeyAll lines = .ok s.layout) (hplanned : s.Planned n plans) :
    Begins plans (lines ++ [n]) := by
  cases hplanned with
  | page hn => exact (h.concat hn).addPage
  | stave hn hplans =>
    rw [hplans] at h
    exact h.addStave hn hl
  | kept hn => exact h.concat hn

end Begins

namespace Score

theorem begins_of_stepAll {s : Score α} {lines : List NumberedLine}
    (h : empty.stepAll lines = .ok s) : Begins s.document.plans lines := by
  have hs : Layout.initial.obeyAll lines = .ok s.layout ∧ Begins s.document.plans lines :=
    stepAll_induction
      (P := fun s lines => Layout.initial.obeyAll lines = .ok s.layout ∧
        Begins s.document.plans lines)
      (fun h hs => ⟨Layout.obeyAll_concat hs.1 h.obey, hs.2.planned hs.1 h.planned⟩) [] h
      ⟨rfl, rfl, nofun, nofun⟩
  exact hs.2

variable {source : String} {d : Document α}

theorem begins_of_parse (h : parse source = .ok d) : Begins d.plans (Line.tokenize source) := by
  obtain ⟨s, hs, rfl⟩ := parse_eq_ok.1 h
  rw [plans_finish]
  exact begins_of_stepAll hs

variable {k : Nat} {v : Stave α}

/-- A stave is begun with the layout that the lines before its stave line give. -/
theorem plan_of_parse (h : parse source = .ok d) (hv : d.staves[k]? = some v) :
    ∃ before l, IsBeforeStave (Line.tokenize source) k before ∧
      Layout.initial.obeyAll before = .ok l ∧ v.plan = (Stave.blank l v.first).plan :=
  (begins_of_parse h).begun (Document.getElem?_flatten_plans hv)

/-- Only the first stave of a document is marked as such, and only if it is on the first page. It
carries labels if a line before it asks for them, and no other stave does. -/
theorem first_of_parse (h : parse source = .ok d) (hv : d.staves[k]? = some v) :
    (v.first = true ↔ k = 0 ∧ ∃ p, d.pages.head? = some p ∧ p.staves ≠ []) ∧
      ∃ before, IsBeforeStave (Line.tokenize source) k before ∧
        (v.labels.isSome = true ↔
          v.first = true ∧ ∃ m ∈ before, m.line = .flag .showCourses) := by
  have hfirst := flatten_first_iff (Q := fun u : Stave α => u.first = true)
    (begins_of_parse h).first (Document.getElem?_flatten_plans hv)
  have hhead : (∃ page, d.plans.head? = some page ∧ page ≠ []) ↔
      ∃ p, d.pages.head? = some p ∧ p.staves ≠ [] := by
    cases hd : d.pages <;> simp [Document.plans, Page.plans, hd]
  obtain ⟨before, l, hbefore, hl, hplan⟩ := plan_of_parse h hv
  have hlabels : v.labels = if v.first && l.showCourses then some ⟨l.courses, l.courseStyle⟩
      else none := congrArg Stave.labels hplan
  have hflag : l.showCourses = (before.any (·.line == .flag .showCourses) || false) :=
    Layout.hasFlag_of_obeyAll .showCourses hl
  refine ⟨hfirst.trans (and_congr_right fun _ => hhead), before, hbefore, ?_⟩
  rw [hlabels, hflag, Bool.or_false]
  simp [apply_ite Option.isSome]

/-- The first of three staves on two pages, behind a line for labels. -/
theorem first_of_parse_on_first_page :
    let source := "SHOWCOURSES\nP-1\nS-\nS-\nP-2\nS-"
    ∃ (d : Document Rat) (v : Stave Rat), parse source = .ok d ∧ d.staves[0]? = some v ∧
      d.staves.map (fun v => (v.first, v.labels.isSome)) =
        [(true, true), (false, false), (false, false)] ∧
      (v.first = true ↔ 0 = 0 ∧ ∃ p, d.pages.head? = some p ∧ p.staves ≠ []) ∧
      ∃ before, IsBeforeStave (Line.tokenize source) 0 before ∧
        (v.labels.isSome = true ↔
          v.first = true ∧ ∃ m ∈ before, m.line = .flag .showCourses) := by
  intro source
  have h : (parse source).toOption.map
      (fun d : Document Rat => d.staves.map fun v => (v.first, v.labels.isSome)) =
      some [(true, true), (false, false), (false, false)] := by
    decide +kernel
  obtain ⟨d, hd, hstaves⟩ := exists_of_toOption_map h
  obtain ⟨v, rest, hv, -⟩ := List.map_eq_cons_iff.1 hstaves
  have hv₀ : d.staves[0]? = some v := by rw [hv]; rfl
  exact ⟨d, v, hd, hv₀, hstaves, first_of_parse hd hv₀⟩

/-- The first stave of a document is not always marked as such, and not always labelled where a
line before it asks for labels: here the first page has a title alone. -/
theorem exists_first_unmarked :
    (¬ ∀ (source : String) (d : Document Rat) (v : Stave Rat), parse source = .ok d →
      d.staves[0]? = some v → v.first = true) ∧
    ¬ ∀ (source : String) (d : Document Rat) (v : Stave Rat) (before : List NumberedLine),
      parse source = .ok d → d.staves[0]? = some v →
      IsBeforeStave (Line.tokenize source) 0 before →
      (∃ m ∈ before, m.line = .flag .showCourses) → v.labels.isSome = true := by
  let source := "SHOWCOURSES\nP-1\nTITLE Folias\nP-2\nS-"
  have h : (parse source).toOption.map
      (fun d : Document Rat => d.staves.map fun v => (v.first, v.labels.isSome)) =
      some [(false, false)] := by
    decide +kernel
  obtain ⟨d, hd, hstaves⟩ := exists_of_toOption_map h
  obtain ⟨v, hv, hmarks⟩ := List.map_eq_singleton_iff.1 hstaves
  obtain ⟨hfirst, hlabels⟩ := Prod.mk.inj hmarks
  have hv₀ : d.staves[0]? = some v := by rw [hv]; rfl
  refine ⟨fun hall => ?_, fun hall => ?_⟩
  · have hmarked := hall source d v hd hv₀
    rw [hfirst] at hmarked
    cases hmarked
  · have hbefore : IsBeforeStave (Line.tokenize source) 0 ((Line.tokenize source).take 4) :=
      ⟨⟨5, .stave⟩, [], by decide +kernel⟩
    have hlabelled := hall source d v _ hd hv₀ hbefore (by decide +kernel)
    rw [hlabels] at hlabelled
    cases hlabelled

end Score

end Tablature
