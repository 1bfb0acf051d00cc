import Tablature.Proofs.FirstFault

/-!
# Italian and french staves

Which way up its staves are is all that a document owes to the orientation, with the
heights of what is written on courses. So a source that opens with the line for french
staves and the source without it are written in lockstep, each stave of the one being
the stave of the other turned to the french side, and what is on a course there is
here on the course that counts from the other end.

* `Stave.facing`: a stave turned to one side;
* `simulation_turned`: italian staves, and what the same lines write on french ones;
* `turned_of_stepAll`: a run on french staves, as long as their lines can be counted;
* `tokenize_append`: a line put in front of a source;
* `Glyph.mirrored`, `Document.mirrored`: an italian document in a mirror;
* `parse_french`: the document of a source with a line for french staves in front.
-/

namespace Tablature

variable {α : Type}

/-! ## Turning to one side -/

/-- The grid with its courses counted from one end or the other. -/
def Grid.facing (o : Orientation) (g : Grid α) : Grid α := { g with orientation := o }

def Layout.facing (o : Orientation) (l : Layout α) : Layout α := { l with orientation := o }

variable [Scalar α]

/-- The glyph with the heights of a grid, if it stands on courses. -/
def Glyph.levelled (g : Grid α) : Glyph α → Glyph α
  | note n => note { n with y := (n.setOn g).y }
  | semicircle s => semicircle { s with y := (s.setOn g).y }
  | barberpole b => barberpole { b with lower := (b.setOn g).lower, upper := (b.setOn g).upper }
  | slur s =>
    slur { s with y₁ := (s.setOn g).y₁, y₂ := (s.setOn g).y₂, y₃ := (s.setOn g).y₃ }
  | x => x

/-- The stave turned to one side, and everything on courses with it. -/
def Stave.facing (o : Orientation) (v : Stave α) : Stave α :=
  { v with
    orientation := o
    glyphs := v.glyphs.map (Glyph.levelled (v.toGrid.facing o)) }

def Page.facing (o : Orientation) (p : Page α) : Page α :=
  { p with staves := p.staves.map (Stave.facing o) }

def Document.facing (o : Orientation) (d : Document α) : Document α :=
  ⟨d.pages.map (Page.facing o)⟩

variable (o : Orientation)

/-- Only the heights of what stands on courses depend on the orientation of a grid. -/
theorem levelled_setOn (g : Grid α) (x : Glyph α) :
    (x.setOn g).levelled (g.facing o) = x.setOn (g.facing o) := by
  cases x with
  | slur s =>
    simp only [Glyph.setOn, Glyph.levelled, Slur.setOn]
    cases g.orientation <;> cases o <;> rfl
  | _ => rfl

/-- Padding moves nothing up or down. -/
theorem levelled_pad (g : Grid α) (p : α) (x : Glyph α) :
    (x.pad p).levelled g = (x.levelled g).pad p := by
  cases x with
  | barline b =>
    simp only [Glyph.pad, Glyph.levelled]
    cases b.kind <;> rfl
  | slur s => simp only [Glyph.pad, Glyph.levelled, Slur.setOn]
  | _ => rfl

theorem styled_facing (l : Layout α) (m : Mark) : m.styled (l.facing o) = m.styled l := by
  cases m <;> rfl

/-! ## Writing on a turned stave -/

namespace Stave

theorem place_facing (l : Layout α) (v : Stave α) (m : Mark) :
    (v.facing o).place (l.facing o) m = (v.place l m).facing o := by
  have hm : m.place (v.toGrid.facing o) (l.facing o) =
      (m.place v.toGrid l).levelled (v.toGrid.facing o) := by
    rw [Mark.place, Mark.place, styled_facing, levelled_setOn]
  simp only [place, facing, List.map_append, List.map_cons, List.map_nil]
  rw [← hm]
  rfl

theorem justify_facing (v : Stave α) : (v.facing o).justify = v.justify.facing o := by
  have hslack : (v.facing o).slack? = v.slack? := rfl
  unfold justify
  rw [hslack]
  cases v.slack? with
  | none => rfl
  | some p =>
    have hglyphs : (v.facing o).glyphs.map (Glyph.pad p) =
        (v.glyphs.map (Glyph.pad p)).map (Glyph.levelled (v.toGrid.facing o)) := by
      simp only [facing, List.map_map]
      refine List.map_congr_left fun x _ => ?_
      exact (levelled_pad _ p x).symm
    simp only [hglyphs]
    rfl

end Stave

theorem Page.justify_facing (p : Page α) : (p.facing o).justify = p.justify.facing o := by
  simp only [justify, facing, List.map_map]
  have hstaves : p.staves.map (Stave.justify ∘ Stave.facing o) =
      p.staves.map (Stave.facing o ∘ Stave.justify) :=
    List.map_congr_left fun v _ => v.justify_facing o
  rw [hstaves]

theorem Document.justify_facing (d : Document α) : (d.facing o).justify = d.justify.facing o := by
  simp only [justify, facing, List.map_map]
  exact congrArg mk (List.map_congr_left fun p _ => p.justify_facing o)

/-! ## Writing on turned staves -/

/-- The first layout is the second, which is for italian staves, turned to the french side. -/
def Layout.Turned (l l' : Layout α) : Prop := l'.orientation = .italian ∧ l = l'.facing .french

/-- The first stave is the second, which is italian, turned to the french side. -/
def Stave.Turned (v w : Stave α) : Prop := w.orientation = .italian ∧ v = w.facing .french

omit [Scalar α] in
theorem Layout.Turned.change {l l' : Layout α} (h : l.Turned l') {c : Change α}
    (hc : c ≠ .flag .french) : (l.change c).Turned (l'.change c) := by
  obtain ⟨hitalian, rfl⟩ := h
  refine ⟨(orientation_change_of_ne hc l').trans hitalian, ?_⟩
  cases c with
  | length s v => cases s <;> rfl
  | count s n => cases s <;> rfl
  | face s face => cases s <;> rfl
  | flag flag => cases flag <;> rfl
  | _ => rfl

/-- Lines that do not turn staves do to french ones what they do to italian ones, unless the lines
of the french ones cannot be counted. -/
theorem simulation_turned :
    Simulation (α := α) (· = .overflow) (· ≠ .flag .french) Layout.Turned
      (fun p q => p.bare = q.bare) Stave.Turned where
  change hk hc h := h.change fun e => by
    subst e
    cases Line.tells_of_change? hc
    exact hk rfl
  cursor := by rintro v w ⟨-, rfl⟩; rfl
  courses := by rintro v w ⟨-, rfl⟩; rfl
  openSlur := by rintro v w ⟨-, rfl⟩; rfl
  countable := by
    rintro v w ⟨hitalian, rfl⟩
    have hw : w.isCountable = true :=
      Grid.isCountable_iff.2 fun hfrench => nomatch hitalian.symm.trans hfrench
    cases hv : (w.facing .french).isCountable with
    | true => exact .inl hw.symm
    | false => exact .inr ⟨rfl, rfl⟩
  advance := by rintro v w slots ⟨hitalian, rfl⟩; exact ⟨hitalian, rfl⟩
  setSlur := by rintro v w start ⟨hitalian, rfl⟩; exact ⟨hitalian, rfl⟩
  place := by
    rintro l l' v w line m - - ⟨-, rfl⟩ ⟨hitalian, rfl⟩
    exact ⟨hitalian, Stave.place_facing .french l' w m⟩
  staves _ _ := id
  page := by rintro l l' _ number first - ⟨-, rfl⟩; rfl
  title := by
    rintro l l' p q text - ⟨-, rfl⟩ hpq
    exact congrArg (Page.setTitle · l' text) hpq
  composer := by
    rintro l l' p q text - ⟨-, rfl⟩ hpq
    exact congrArg (Page.setComposer · l' text) hpq
  number {p q} hpq := by
    have h : p.bare.number = q.bare.number := by rw [hpq]
    exact h
  staveLength {p q} hpq := by
    have h : p.bare.staveLength = q.bare.staveLength := by rw [hpq]
    exact h
  stave := by
    rintro l l' p q index first - ⟨hitalian, rfl⟩ hpq
    refine ⟨hitalian, ?_⟩
    let place (p : Page α) : Stave α := (Stave.blank (l'.facing .french) first).moveTo p.leftMargin
      (p.staveY index (Stave.blank l' first).height) p.staveLength
    have h : place p.bare = place q.bare := by rw [hpq]
    exact h

namespace Score

/-- The first score is the second, all of whose staves are italian, turned to the french side. -/
abbrev Turned (s t : Score α) : Prop :=
  s.InStep Layout.Turned (fun p q => p.bare = q.bare) Stave.Turned t

theorem Turned.italian {s t : Score α} (h : s.Turned t) :
    ∀ p ∈ t.document.pages, ∀ v ∈ p.staves, v.orientation = .italian := by
  exact forall_of_forall₂ h.pages fun _ _ hpq =>
    forall_of_forall₂ hpq.2 fun _ _ hvw => hvw.1

theorem Turned.document_eq {s t : Score α} (h : s.Turned t) :
    s.document = t.document.facing .french := by
  refine congrArg Document.mk ?_
  rw [← List.forall₂_eq_eq_eq, List.forall₂_map_right_iff]
  refine h.pages.imp fun p q hpq => ?_
  have hstaves : p.staves = q.staves.map (Stave.facing .french) := by
    rw [← List.forall₂_eq_eq_eq, List.forall₂_map_right_iff]
    exact hpq.2.imp fun _ _ => And.right
  have hpage (p : Page α) : p = { p.bare with staves := p.staves } := rfl
  rw [hpage p, hpq.1, hstaves]
  rfl

theorem Turned.finish_eq {s t : Score α} (h : s.Turned t) : s.finish = t.finish.facing .french := by
  have hjustified : s.layout.justified = t.layout.justified := by rw [h.layout.2]; rfl
  unfold finish
  rw [hjustified, h.document_eq]
  split
  · exact t.document.justify_facing .french
  · rfl

/-- A run on turned staves goes as on italian ones, with all its lines later, as long as no stave
of the run has too many courses. -/
theorem turned_of_stepAll {s t : Score α} (hst : s.Turned t) {k : Nat} {lines : List NumberedLine}
    (hlines : ∀ n ∈ lines, n.line ≠ .flag .french)
    (hcourses : ∀ before u, before <+: lines → t.stepAll before = .ok u →
      ∀ p ∈ u.document.pages, ∀ v ∈ p.staves, v.courses < Count.max) :
    Agree (fun e f => e = f.later k) Turned (s.stepAll (lines.map (.later k))) (t.stepAll lines) := by
  have hkinds {before : List NumberedLine} (hbefore : before <+: lines) :
      ∀ m ∈ before.map (NumberedLine.later k), m.line ≠ .flag .french := by
    intro m hm
    obtain ⟨n, hn, rfl⟩ := List.mem_map.1 hm
    exact hlines n (hbefore.subset hn)
  have hrun {before : List NumberedLine} (hbefore : before <+: lines) :=
    simulation_turned.agree_stepAll_later (hkinds hbefore) (sameBut_later k _ _ before) hst
  obtain ⟨_, rfl, hstop⟩ | hall := hrun List.prefix_rfl
  · -- The stave that the first run stops at is one of the second run, turned.
    obtain ⟨before, u, v, hbefore, hu, hv, -, hmax⟩ := exists_uncountable_of_stepAll hstop
    obtain ⟨before, hprefix, rfl⟩ := List.prefix_map_iff.1 hbefore
    obtain ⟨_, -, hstop⟩ | hrun := hrun hprefix
    · rw [hu] at hstop
      cases hstop
    rw [hu] at hrun
    obtain ⟨u', hu', hturned⟩ := hrun.exists_ok
    have hstave := hturned.rel_currentStave?
    rw [hv] at hstave
    cases hw : u'.document.currentStave? with
    | none => rw [hw] at hstave; cases hstave
    | some w =>
      rw [hw] at hstave
      obtain ⟨-, rfl⟩ : v.Turned w := by cases hstave; assumption
      obtain ⟨p, hp, hw⟩ := Option.bind_eq_some_iff.1 hw
      exact absurd (hcourses before u' hprefix hu' p (List.mem_of_getLast? hp) w
        (List.mem_of_getLast? hw)) (Nat.not_lt.2 hmax)
  · exact hall

end Score

/-! ## A line in front of a source -/

/-- A source with a line in front of it has that line first, and then its own lines, one later. -/
theorem tokenize_append (line : List Char) (hline : '\n' ∉ line)
    (hmark : line.head? ≠ some '\uFEFF') {source : String}
    (hsource : source.toList.head? ≠ some '\uFEFF') :
    Line.tokenize (String.ofList line ++ "\n" ++ source) =
      ⟨1, Line.classify line⟩ :: (Line.tokenize source).map (.later 1) := by
  have e : String.ofList line ++ "\n" = Text.unlines [line] := by simp [Text.unlines]
  have hends : Text.EndsLine (Text.unlines [line]).toList := .inr (by simp [Text.unlines])
  have htokens : Line.tokenize (Text.unlines [line]) = [⟨1, Line.classify line⟩] :=
    tokenize_unlines fun l hl => List.mem_singleton.1 hl ▸ ⟨hline, hmark⟩
  rw [e, tokenize_append_of_endsLine hends hsource, htokens]
  rfl

/-! ## The mirror -/

/-- The course that counts from the other end of the stave. -/
def Grid.opposite (g : Grid α) (course : Nat) : Nat := g.courses + 1 - course

/-- On a french grid each course has the line of the opposite one on an italian grid. -/
theorem courseOffset_facing_french {g : Grid α} (hg : g.orientation = .italian) (course : Nat) :
    (g.facing .french).courseOffset course = g.courseOffset (g.opposite course) := by
  unfold Grid.courseOffset
  rw [hg]
  rfl

/-- A glyph of an italian stave with the grid `g` in the mirror: what is on a course stands where
it would stand on the opposite course. A slur ends a spacing and a half lower than it would on
the opposite courses, and is bent downwards. -/
def Glyph.mirrored (g : Grid α) : Glyph α → Glyph α
  | note n => note { n with y := (Note.setOn g { n with course := g.opposite n.course }).y }
  | semicircle s =>
    semicircle { s with y := (Semicircle.setOn g { s with course := g.opposite s.course }).y }
  | barberpole b =>
    let (first, last) := b.range.getD (1, g.courses)
    let range := some (g.opposite first, g.opposite last)
    barberpole { b with
      lower := (Barberpole.setOn g { b with range }).lower
      upper := (Barberpole.setOn g { b with range }).upper }
  | slur s =>
    let arc := Slur.setOn g { s with
      start := ⟨s.start.slot, g.opposite s.start.course⟩
      stop := ⟨s.stop.slot, g.opposite s.stop.course⟩ }
    let y₁ := arc.y₁ - 1.5 * g.courseSpacing
    let y₃ := arc.y₃ - 1.5 * g.courseSpacing
    slur { s with y₁, y₂ := Scalar.lesser y₁ y₃ - 2.0 * g.courseSpacing, y₃ }
  | x => x

def Stave.mirrored (v : Stave α) : Stave α :=
  { v with orientation := .french, glyphs := v.glyphs.map (Glyph.mirrored v.toGrid) }

/-- The document with every stave the other way up. -/
def Document.mirrored (d : Document α) : Document α :=
  ⟨d.pages.map fun p => { p with staves := p.staves.map Stave.mirrored }⟩

/-- Turning an italian glyph over is seeing it in the mirror. -/
theorem levelled_eq_mirrored {g : Grid α} (hg : g.orientation = .italian) (x : Glyph α) :
    x.levelled (g.facing .french) = x.mirrored g := by
  have hoffset (course : Nat) := courseOffset_facing_french hg course
  have hy (course : Nat) : (g.facing .french).courseY course = g.courseY (g.opposite course) :=
    congrArg (g.y + ·) (hoffset course)
  cases x with
  | note n => simp only [Glyph.levelled, Glyph.mirrored, Note.setOn, hy]
  | semicircle s =>
    obtain ⟨side, _⟩ := s
    cases side <;> simp only [Glyph.levelled, Glyph.mirrored, Semicircle.setOn, hy] <;> rfl
  | barberpole b =>
    simp only [Glyph.levelled, Glyph.mirrored, Barberpole.setOn, Option.getD_some, hoffset]
    rfl
  | slur s =>
    simp only [Glyph.levelled, Glyph.mirrored, Slur.setOn, hy, hg]
    rfl
  | _ => rfl

theorem facing_eq_mirrored {d : Document α}
    (hd : ∀ p ∈ d.pages, ∀ v ∈ p.staves, v.orientation = .italian) :
    d.facing .french = d.mirrored := by
  have hstave : ∀ p ∈ d.pages,
      p.staves.map (Stave.facing .french) = p.staves.map Stave.mirrored := by
    intro p hp
    refine List.map_congr_left fun v hv => ?_
    have hglyphs : v.glyphs.map (Glyph.levelled (v.toGrid.facing .french)) =
        v.glyphs.map (Glyph.mirrored v.toGrid) :=
      List.map_congr_left fun x _ => levelled_eq_mirrored (hd p hp v hv) x
    unfold Stave.facing Stave.mirrored
    rw [hglyphs]
  refine congrArg Document.mk (List.map_congr_left fun p hp => ?_)
  rw [Page.facing, hstave p hp]

/-- With a line for french staves in front, a source that has none gives the document that it
gives without it in the mirror, or its fault one line later. -/
theorem Score.parse_french {source : String} (hmark : source.toList.head? ≠ some '\uFEFF')
    (hlines : ∀ n ∈ Line.tokenize source, n.line ≠ .flag .french)
    (hcourses : ∀ before (s : Score α), before <+: Line.tokenize source →
      empty.stepAll before = .ok s →
      ∀ p ∈ s.document.pages, ∀ v ∈ p.staves, v.courses < Count.max) :
    parse (α := α) ("FRENCH\n" ++ source) =
        ((parse source).map Document.mirrored).mapError (Stop.later 1) ∧
      ∀ d : Document α, parse source = .ok d →
        ∀ p ∈ d.pages, ∀ v ∈ p.staves, v.orientation = .italian := by
  have htokens : Line.tokenize ("FRENCH\n" ++ source) =
      ⟨1, .flag .french⟩ :: (Line.tokenize source).map (.later 1) := by
    have hfrench : Line.classify "FRENCH".toList = .flag .french := by decide +kernel
    have e : "FRENCH\n" ++ source = String.ofList "FRENCH".toList ++ "\n" ++ source := by
      simp
    rw [e, tokenize_append "FRENCH".toList (by decide) (by decide) hmark, hfrench]
  have hstart : Turned (empty.setLayout (empty.layout.facing .french)) (empty : Score α) :=
    ⟨⟨rfl, rfl⟩, .nil⟩
  have hrun := turned_of_stepAll hstart (k := 1) hlines hcourses
  unfold parse
  rw [htokens]
  change (Except.map finish (stepAll (empty.setLayout (empty.layout.facing .french)) _)) = _ ∧ _
  generalize stepAll (empty.setLayout ((empty : Score α).layout.facing .french)) _ = x,
    (empty : Score α).stepAll (Line.tokenize source) = y at hrun ⊢
  cases hrun with
  | error he =>
    rw [he]
    exact ⟨rfl, nofun⟩
  | @ok s t hturned =>
    have hitalian : ∀ p ∈ t.finish.pages, ∀ v ∈ p.staves, v.orientation = .italian := by
      refine forall_finish (fun {p} hp => ?_) hturned.italian
      intro v hv
      obtain ⟨w, hw, rfl⟩ := List.mem_map.1 hv
      rw [Stave.toGrid_justify]
      exact hp w hw
    refine ⟨congrArg Except.ok (hturned.finish_eq.trans (facing_eq_mirrored hitalian)), ?_⟩
    rintro d ⟨⟩
    exact hitalian

/-- A justified stave with everything on it that stands on courses. -/
theorem Score.parse_french_justified :
    let source :=
      "JUSTIFIED\nNUMBEROFCOURSES 6\nSLOTS 3\nP-1\nS-\n1-0 6-c\n2-[ 3-\x7b\n5-] 4-\x7d\nBP-1-2"
    let heights (d : Document Rat) : List (List Rat) := d.pages.flatMap fun p =>
      p.staves.flatMap fun v => v.glyphs.map fun
        | .note n => [n.y]
        | .semicircle s => [s.y]
        | .slur s => [s.y₁, s.y₂, s.y₃]
        | .barberpole b => [b.lower, b.upper]
        | _ => []
    source.toList.head? ≠ some '\uFEFF' ∧
      (∀ n ∈ Line.tokenize source, n.line ≠ .flag .french) ∧
      (∀ before (s : Score Rat), before <+: Line.tokenize source →
        empty.stepAll before = .ok s →
        ∀ p ∈ s.document.pages, ∀ v ∈ p.staves, v.courses < Count.max) ∧
      ∃ d : Document Rat, parse source = .ok d ∧ parse ("FRENCH\n" ++ source) = .ok d.mirrored ∧
        heights d = [[639], [689], [665], [1319 / 2, 1419 / 2, 1379 / 2], [669], [0, 10]] ∧
        heights d.mirrored =
          [[689], [639], [675], [1349 / 2, 1249 / 2, 1289 / 2], [659], [40, 50]] := by
  intro source heights
  have h : ((parse source).toOption.map fun d : Document Rat => (heights d, heights d.mirrored)) =
      some ([[639], [689], [665], [1319 / 2, 1419 / 2, 1379 / 2], [669], [0, 10]],
        [[689], [639], [675], [1349 / 2, 1249 / 2, 1289 / 2], [659], [40, 50]]) := by
    decide +kernel
  obtain ⟨d, hd, hheights⟩ := exists_of_toOption_map h
  obtain ⟨hitalian, hfrench⟩ := Prod.mk.inj hheights
  have hmark : source.toList.head? ≠ some '\uFEFF' := by decide +kernel
  have hlines : ∀ n ∈ Line.tokenize source, n.line ≠ .flag .french := by decide +kernel
  have hcourses : ∀ before (s : Score Rat), before <+: Line.tokenize source →
      empty.stepAll before = .ok s →
      ∀ p ∈ s.document.pages, ∀ v ∈ p.staves, v.courses < Count.max := by
    have hall : ∀ k ≤ 9, ((empty : Score Rat).stepAll ((Line.tokenize source).take k)).toOption.all
        (fun s => s.document.pages.all fun p => p.staves.all fun v => v.courses < Count.max) =
        true := by
      decide +kernel
    intro before s hbefore hs p hp v hv
    have hlength : (Line.tokenize source).length = 9 := by decide +kernel
    have hk := hall before.length (hlength ▸ hbefore.length_le)
    rw [← List.prefix_iff_eq_take.1 hbefore, hs] at hk
    exact of_decide_eq_true (List.all_eq_true.1 (List.all_eq_true.1 hk p hp) v hv)
  have hparse := (parse_french hmark hlines hcourses).1
  rw [hd] at hparse
  exact ⟨hmark, hlines, hcourses, d, hd, hparse, hitalian, hfrench⟩

end Tablature
