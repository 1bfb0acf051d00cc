import Mathlib.Data.List.Forall2
import Tablature.Proofs.Abreast
import Tablature.Proofs.Change

/-!
# Runs in lockstep

Two scores are written on line by line, each with its own layout and its own line
numbers. If the layouts, the pages and the staves are related in a way that every
line keeps, the two runs go in lockstep: both can be written, or both stop at the
same fault, and leave related scores behind. Lines that the relation does not see may
stand in one run only.

* `Stop.Alike`: one stop, whatever the line;
* `Simulation`: what has to be shown of relations between layouts, between pages
  and between staves for lines to keep them;
* `abreast_put`: one line on two related scores;
* `SameBut`: two runs that are the same but for some lines;
* `agree_stepAll`, `inStep_feedAll`: two such runs on two related scores;
* `Layout.Suffices`: the case that one document is written on with two layouts, of which
  the lines see the same part.
-/

namespace Tablature

variable {α : Type}

/-- The fault without the number of its line. -/
def Fault.unnumbered : Fault α → Fault α
  | malformedDirective _ directive refusal => malformedDirective 0 directive refusal
  | malformedNote _ token => malformedNote 0 token
  | courseOutOfRange _ course courses => courseOutOfRange 0 course courses
  | unmatchedSlur _ course => unmatchedSlur 0 course
  | noPage _ directive => noPage 0 directive
  | noStave _ directive => noStave 0 directive
  | degenerateStave page length => degenerateStave page length

/-- What stops a source, without the number of the line. -/
def Stop.unnumbered : Stop α → Stop α
  | fault f => fault f.unnumbered
  | overflow => overflow

/-- The same stops two sources, if not on the same line. -/
def Stop.Alike (e f : Stop α) : Prop := e.unnumbered = f.unnumbered

theorem agree_argument {β : Type} {m n : NumberedLine} (h : m.line = n.line)
    (r : Except Refusal β) :
    Agree (Stop.Alike (α := α)) Eq (Score.argument m r) (Score.argument n r) := by
  cases r with
  | ok b => exact .ok rfl
  | error e =>
    have hname : m.line.name = n.line.name := congrArg Line.name h
    exact .error (congrArg (fun name => Stop.fault (.malformedDirective 0 name e)) hname)

/-! ## Lists in step -/

section

variable {β γ : Type} {R : β → γ → Prop} {xs : List β} {ys : List γ}

theorem rel_getLast? (h : List.Forall₂ R xs ys) : Option.Rel R xs.getLast? ys.getLast? := by
  induction h with
  | nil => exact .none
  | cons hxy h ih =>
    cases h with
    | nil => exact .some hxy
    | cons _ _ => simpa only [List.getLast?_cons_cons] using ih

theorem isEmpty_of_forall₂ (h : List.Forall₂ R xs ys) : xs.isEmpty = ys.isEmpty := by
  cases h <;> rfl

/-- What each member of the second list owes to the one that it goes with. -/
theorem forall_of_forall₂ (h : List.Forall₂ R xs ys) {Q : γ → Prop} (hQ : ∀ x y, R x y → Q y) :
    ∀ y ∈ ys, Q y := by
  induction h with
  | nil => exact fun y hy => nomatch hy
  | cons hxy _ ih => exact List.forall_mem_cons.2 ⟨hQ _ _ hxy, ih⟩

theorem forall₂_dropLast_concat (h : List.Forall₂ R xs ys) {x : β} {y : γ} (hxy : R x y) :
    List.Forall₂ R (xs.dropLast ++ [x]) (ys.dropLast ++ [y]) := by
  rw [List.dropLast_eq_take, List.dropLast_eq_take, h.length_eq]
  exact List.rel_append (List.forall₂_take _ h) (.cons hxy .nil)

end

/-! ## Scores in step -/

/-- Two pages in step: they are related, and so are their staves, one by one. -/
def Page.InStep (E : Page α → Page α → Prop) (T : Stave α → Stave α → Prop) (p q : Page α) : Prop :=
  E p q ∧ List.Forall₂ T p.staves q.staves

/-- Two scores in step: their layouts are related, and so are their pages, one by one. -/
structure Score.InStep (R : Layout α → Layout α → Prop) (E : Page α → Page α → Prop)
    (T : Stave α → Stave α → Prop) (s t : Score α) : Prop where
  layout : R s.layout t.layout
  pages : List.Forall₂ (Page.InStep E T) s.document.pages t.document.pages

namespace Score.InStep

variable {R : Layout α → Layout α → Prop} {E : Page α → Page α → Prop}
  {T : Stave α → Stave α → Prop} {s t : Score α} (hst : s.InStep R E T t)

include hst

theorem rel_currentPage? :
    Option.Rel (Page.InStep E T) s.document.currentPage? t.document.currentPage? :=
  rel_getLast? hst.pages

theorem rel_currentStave? : Option.Rel T s.document.currentStave? t.document.currentStave? := by
  have hpage := hst.rel_currentPage?
  unfold Document.currentStave?
  cases hp : s.document.currentPage? <;> cases hq : t.document.currentPage? <;>
    rw [hp, hq] at hpage <;> cases hpage
  · exact .none
  · rename_i hpq
    exact rel_getLast? hpq.2

theorem beforeFirstStave {p q : Page α} (hpq : p.InStep E T q) :
    s.beforeFirstStave p = t.beforeFirstStave q := by
  unfold Score.beforeFirstStave
  rw [hst.pages.length_eq, isEmpty_of_forall₂ hpq.2]

theorem setPage {p q : Page α} (hpq : p.InStep E T q) : (s.setPage p).InStep R E T (t.setPage q) :=
  ⟨hst.layout, forall₂_dropLast_concat hst.pages hpq⟩

variable {m n : NumberedLine} (h : m.line = n.line)

include h

theorem agree_pageFor : Agree Stop.Alike (Page.InStep E T) (s.pageFor m) (t.pageFor n) := by
  have hpage := hst.rel_currentPage?
  unfold Score.pageFor
  cases hp : s.document.currentPage? <;> cases hq : t.document.currentPage? <;>
    rw [hp, hq] at hpage <;> cases hpage
  · have hname : m.line.name = n.line.name := congrArg Line.name h
    exact .error (congrArg (fun name => Stop.fault (.noPage 0 name)) hname)
  · rename_i hpq
    exact .ok hpq

theorem agree_staveFor : Agree Stop.Alike T (s.staveFor m) (t.staveFor n) := by
  refine (hst.agree_pageFor h).bind fun p q hpq => ?_
  have hstave : Option.Rel T p.currentStave? q.currentStave? := rel_getLast? hpq.2
  cases hv : p.currentStave? <;> cases hw : q.currentStave? <;> rw [hv, hw] at hstave <;>
    cases hstave
  · have hname : m.line.name = n.line.name := congrArg Line.name h
    exact .error (congrArg (fun name => Stop.fault (.noStave 0 name)) hname)
  · rename_i hvw
    exact .ok hvw

end Score.InStep

variable [Scalar α]

/-! ## Simulations -/

/-- The marks that a line may write. -/
def Line.Writes : Line → Mark → Prop
  | timeSignature _, .timeSignature _ _ => True
  | barline _ _, .barline _ _ _ => True
  | barberpole _, .barberpole _ _ => True
  | notes _ _, .note _ _ _ | notes _ _, .tick _ _ | notes _ _, .semicircle _ _ _
  | notes _ _, .slur _ _ => True
  | strum _, .strum _ _ => True
  | alfabeto _, .alfabeto _ _ => True
  | sectionSign, .sectionSign _ => True
  | _, _ => False

/-- What has to be shown of a relation `R` between layouts, `E` between pages whatever their
staves, and `T` between staves, for lines of some kinds to keep them, as long as what stops the
first run does not count as `out`. -/
structure Simulation (out : Stop α → Prop) (kinds : Line → Prop) (R : Layout α → Layout α → Prop)
    (E : Page α → Page α → Prop) (T : Stave α → Stave α → Prop) : Prop where
  change {l l' : Layout α} {line : Line} {c : Layout.Change α} : kinds line →
    line.change? = .ok c → R l l' → R (l.change c) (l'.change c)
  cursor {v w : Stave α} : T v w → v.cursor = w.cursor
  courses {v w : Stave α} : T v w → v.courses = w.courses
  openSlur {v w : Stave α} : T v w → v.openSlur = w.openSlur
  countable {v w : Stave α} : T v w → v.isCountable = w.isCountable ∨
    out .overflow ∧ v.isCountable = false
  advance {v w : Stave α} (slots : Nat) : T v w → T (v.advance slots) (w.advance slots)
  setSlur {v w : Stave α} (start : Option Anchor) : T v w →
    T { v with openSlur := start } { w with openSlur := start }
  place {l l' : Layout α} {v w : Stave α} {line : Line} {m : Mark} : kinds line → line.Writes m →
    R l l' → T v w → T (v.place l m) (w.place l' m)
  staves {p q : Page α} (vs ws : List (Stave α)) : E p q →
    E { p with staves := vs } { q with staves := ws }
  page {l l' : Layout α} {text : String} (number : Nat) (first : Bool) : kinds (.page text) →
    R l l' → E (.blank l number first) (.blank l' number first)
  title {l l' : Layout α} {p q : Page α} {text : String} : kinds (.title text) → R l l' → E p q →
    E (p.setTitle l text) (q.setTitle l' text)
  composer {l l' : Layout α} {p q : Page α} {text : String} : kinds (.composer text) → R l l' →
    E p q → E (p.setComposer l text) (q.setComposer l' text)
  number {p q : Page α} : E p q → p.number = q.number
  staveLength {p q : Page α} : E p q → p.staveLength = q.staveLength
  stave {l l' : Layout α} {p q : Page α} (index : Nat) (first : Bool) : kinds .stave → R l l' →
    E p q →
    T ((Stave.blank l first).moveTo p.leftMargin
        (p.staveY index (Stave.blank l first).height) p.staveLength)
      ((Stave.blank l' first).moveTo q.leftMargin
        (q.staveY index (Stave.blank l' first).height) q.staveLength)

namespace Simulation

variable {out : Stop α → Prop} {kinds : Line → Prop} {R : Layout α → Layout α → Prop}
  {E : Page α → Page α → Prop} {T : Stave α → Stave α → Prop} (H : Simulation out kinds R E T)

include H

/-! ## Staves -/

section

variable {l l' : Layout α} (hl : R l l') {v w : Stave α} (hv : T v w)

include hv

theorem agree_checkCourse (i j course : Nat) :
    Agree (Stop.Alike (α := α)) Eq (v.checkCourse i course) (w.checkCourse j course) := by
  unfold Stave.checkCourse Grid.hasCourse
  rw [H.courses hv]
  split
  · exact .ok rfl
  · exact .error rfl

theorem beginSlur (course : Nat) : T (v.beginSlur course) (w.beginSlur course) := by
  have hanchor : (⟨w.cursor, course⟩ : Anchor) = ⟨v.cursor, course⟩ := by rw [H.cursor hv]
  unfold Stave.beginSlur
  rw [hanchor]
  exact H.setSlur _ hv

theorem agree_barberpoleRange {m n : NumberedLine} (h : m.line = n.line) (range : String) :
    Agree (Stop.Alike (α := α)) Eq (Score.barberpoleRange m v range)
      (Score.barberpoleRange n w range) := by
  unfold Score.barberpoleRange
  split
  · exact .ok rfl
  · refine (agree_argument h (readCourseRange range)).bind ?_
    rintro ⟨first, last⟩ _ rfl
    refine (H.agree_checkCourse hv _ _ first).bind fun _ _ _ => ?_
    exact (H.agree_checkCourse hv _ _ last).bind fun _ _ _ => .ok rfl

include hl

/-- A mark is written on both staves or on neither, unless the lines of the first alone cannot be
counted, and that counts as out. -/
theorem abreast_putMarkOn {line : Line} (hk : kinds line) {m : Mark} (hw : line.Writes m) :
    Work.Abreast out Stop.Alike T ((Stave.put l m).run v) ((Stave.put l' m).run w) := by
  have hplace := H.place hk hw hl hv
  rw [Stave.run_put, Stave.run_put, Grid.counts_eq, Grid.counts_eq, H.courses hv]
  cases (m.courses w.courses).isEmpty with
  | true => exact .ok hplace
  | false =>
    simp only [Bool.false_or]
    obtain hcount | ⟨hout, hcount⟩ := H.countable hv
    · rw [hcount]
      split
      · exact .ok hplace
      · exact .error rfl hv
    · rw [hcount]
      exact .out hout

theorem abreast_putMark (mark : Nat → Mark) {line : Line} (hk : kinds line)
    (hw : ∀ slot, line.Writes (mark slot)) :
    Work.Abreast out Stop.Alike T ((Stave.putMark l mark).run v) ((Stave.putMark l' mark).run w) := by
  refine .get_bind ?_
  rw [H.cursor hv]
  exact H.abreast_putMarkOn hl hv hk (hw _)

variable {rhythm : Option Rhythm} {tokens : String} (hk : kinds (.notes rhythm tokens))

include hk

theorem abreast_putSlur (i j course : Nat) : Work.Abreast out Stop.Alike T
    ((Stave.putSlur l i course).run v) ((Stave.putSlur l' j course).run w) := by
  refine .get_bind (.bind (.ok (H.setSlur none hv)) fun t t' ht => ?_)
  rw [H.openSlur hv, H.cursor hv]
  cases w.openSlur with
  | none => exact .error rfl ht
  | some start => exact H.abreast_putMarkOn hl ht hk trivial

theorem abreast_putToken (i j : Nat) (token : List Char) : Work.Abreast out Stop.Alike T
    ((Stave.putToken l i token).run v) ((Stave.putToken l' j token).run w) := by
  unfold Stave.putToken
  cases NoteToken.read? token with
  | none => exact .error rfl hv
  | some t =>
    obtain ⟨course, sign⟩ := t
    refine .get_bind (.ofExcept_bind (H.agree_checkCourse hv i j course) hv fun _ _ _ => ?_)
    cases sign with
    | fret text => exact H.abreast_putMark hl hv (.note · course text) hk fun _ => trivial
    | semicircle side => exact H.abreast_putMark hl hv (.semicircle side · course) hk fun _ => trivial
    | slurBegin => exact .modify (H.beginSlur hv course)
    | slurEnd => exact H.abreast_putSlur hl hv hk i j course

theorem abreast_putNotes (i j : Nat) : Work.Abreast out Stop.Alike T
    ((Stave.putNotes l i rhythm tokens).run v) ((Stave.putNotes l' j rhythm tokens).run w) := by
  refine .bind ?_ fun v w hv => .bind ?_ fun v w hv => .modify (H.advance 1 hv)
  · cases rhythm with
    | none => exact .ok hv
    | some r => exact H.abreast_putMark hl hv (.tick · r) hk fun _ => trivial
  · exact .forM _ (fun token v w hv => H.abreast_putToken hl hv hk i j token) hv

end

/-! ## Scores -/

/-- A stave is begun on both pages, or on neither. -/
theorem abreast_putStave (hk : kinds .stave) {l l' : Layout α} (hl : R l l') {p q : Page α}
    (hpq : p.InStep E T q) (first : Bool) :
    Work.Abreast out Stop.Alike (Page.InStep E T) ((Page.putStave (.blank l first)).run p)
      ((Page.putStave (.blank l' first)).run q) := by
  have hnew := H.stave p.staves.length first hk hl hpq.1
  refine .get_bind ?_
  by_cases hroom : p.staveLength ≤ 0.0
  · rw [if_pos hroom, if_pos (H.staveLength hpq.1 ▸ hroom), H.number hpq.1, H.staveLength hpq.1]
    exact .error rfl hpq
  · rw [if_neg hroom, if_neg (H.staveLength hpq.1 ▸ hroom), ← hpq.2.length_eq]
    exact .ok ⟨H.staves _ _ hpq.1, List.rel_append hpq.2 (.cons hnew .nil)⟩

variable {s t : Score α} (hst : s.InStep R E T t)

include hst

theorem setStave {v w : Stave α} (hvw : T v w) : (s.setStave v).InStep R E T (t.setStave w) := by
  have hpage := hst.rel_currentPage?
  refine ⟨hst.layout, ?_⟩
  unfold Score.setStave Document.setCurrentStave
  cases hp : s.document.currentPage? <;> cases hq : t.document.currentPage? <;>
    rw [hp, hq] at hpage <;> cases hpage
  · exact hst.pages
  · rename_i hpq
    exact forall₂_dropLast_concat hst.pages
      ⟨H.staves _ _ hpq.1, forall₂_dropLast_concat hpq.2 hvw⟩

theorem addPage {text : String} (hk : kinds (.page text)) (number : Nat) :
    (s.addPage number).InStep R E T (t.addPage number) := by
  have hempty : s.document.isEmpty = t.document.isEmpty := isEmpty_of_forall₂ hst.pages
  refine ⟨hst.layout, List.rel_append hst.pages (.cons ?_ .nil)⟩
  rw [hempty]
  exact ⟨H.page number _ hk hst.layout, .nil⟩

variable {m n : NumberedLine} (h : m.line = n.line)

include h

omit H [Scalar α] in
theorem abreast_onPage {w w' : Work (Stop α) (Page α) Unit}
    (hw : ∀ p q, p.InStep E T q → Work.Abreast out Stop.Alike (Page.InStep E T) (w.run p) (w'.run q)) :
    Work.Abreast out Stop.Alike (Score.InStep R E T) ((Score.onPage m w).run s)
      ((Score.onPage n w').run t) :=
  .get_bind (.ofExcept_bind (hst.agree_pageFor h) hst fun p q hpq =>
    .within (hw p q hpq) fun _ _ hpq => hst.setPage hpq)

theorem abreast_onStave {w w' : Work (Stop α) (Stave α) Unit}
    (hw : ∀ v u, T v u → Work.Abreast out Stop.Alike T (w.run v) (w'.run u)) :
    Work.Abreast out Stop.Alike (Score.InStep R E T) ((Score.onStave m w).run s)
      ((Score.onStave n w').run t) :=
  .get_bind (.ofExcept_bind (hst.agree_staveFor h) hst fun v u hvu =>
    .within (hw v u hvu) fun _ _ hvu => H.setStave hst hvu)

/-- A directive is obeyed in both or in neither. -/
theorem abreast_obey (hk : kinds m.line) (hoff : m.line.isOffPage = true) :
    Work.Abreast out Stop.Alike (Score.InStep R E T) ((Score.put m).run s)
      ((Score.put n).run t) := by
  have hstep {s : Score α} {n : NumberedLine} (hn : n.line.isOffPage = true) :
      (Score.put n).outcome s =
        (Score.argument n ((n.line.change?).map s.layout.change)).map s.setLayout := by
    rw [← Layout.obey_eq]
    refine (Score.step_eq s n).trans ?_
    split <;> simp_all [Line.isOffPage]
  have hspares (s : Score α) {n : NumberedLine} (hn : n.line.isOffPage = true) (e : Stop α) :
      (Score.put n).Spares e s :=
    Score.spares_put (fun _ _ e => by rw [e] at hn; cases hn) s e
  refine .of_outcome ?_ hst (hspares s hoff) (hspares t (h ▸ hoff))
  rw [hstep hoff, hstep (h ▸ hoff), ← h]
  cases hc : (m.line.change? : Except Refusal (Layout.Change α)) with
  | ok c => exact .ok ⟨H.change hk hc hst.layout, hst.pages⟩
  | error e =>
    have hname : m.line.name = n.line.name := congrArg Line.name h
    exact .error (congrArg (fun name => Stop.fault (.malformedDirective 0 name e)) hname)

/-- The same line does the same to two scores in step. -/
theorem abreast_put (hk : kinds m.line) :
    Work.Abreast out Stop.Alike (Score.InStep R E T) ((Score.put m).run s)
      ((Score.put n).run t) := by
  have hl := hst.layout
  have hobey := H.abreast_obey hst h hk
  have hmark {v w : Stave α} (hvw : T v w) (mark : Nat → Mark)
      (hw : ∀ slot, m.line.Writes (mark slot)) := H.abreast_putMark hl hvw mark hk hw
  obtain ⟨i, line⟩ := m
  obtain ⟨j, line⟩ := n
  dsimp only at h hk
  subst h
  have h : NumberedLine.line ⟨i, line⟩ = NumberedLine.line ⟨j, line⟩ := rfl
  cases line with
  | page text =>
    refine .get_bind (.ofExcept_bind (agree_argument h _) hst ?_)
    rintro number _ rfl
    exact .modify (H.addPage hst hk number)
  | stave =>
    refine .get_bind (abreast_onPage hst h fun p q hpq => .get_bind ?_)
    rw [← hst.beforeFirstStave hpq]
    exact H.abreast_putStave hk hl hpq _
  | title text =>
    exact .get_bind (abreast_onPage hst h fun p q hpq => .modify ⟨H.title hk hl hpq.1, hpq.2⟩)
  | composer text =>
    exact .get_bind (abreast_onPage hst h fun p q hpq => .modify ⟨H.composer hk hl hpq.1, hpq.2⟩)
  | timeSignature figures =>
    refine .get_bind (.ofExcept_bind (agree_argument h _) hst ?_)
    rintro meter _ rfl
    exact H.abreast_onStave hst h fun v w hvw =>
      .bind (hmark hvw (.timeSignature · meter) fun _ => trivial) fun _ _ hvw => .modify (H.advance _ hvw)
  | barline kind label =>
    refine .get_bind (H.abreast_onStave hst h fun v w hvw =>
      .bind (hmark hvw (.barline kind · _) fun _ => trivial) fun v w hvw => .modify ?_)
    split
    · exact H.advance 1 hvw
    · exact hvw
  | barberpole range =>
    refine .get_bind (H.abreast_onStave hst h fun v w hvw =>
      .get_bind (.ofExcept_bind (H.agree_barberpoleRange hvw h range) hvw ?_))
    rintro ends _ rfl
    exact hmark hvw (.barberpole · ends) fun _ => trivial
  | notes rhythm tokens =>
    exact .get_bind (H.abreast_onStave hst h fun v w hvw => H.abreast_putNotes hl hvw hk i j)
  | strum pattern =>
    exact .get_bind (H.abreast_onStave hst h fun v w hvw =>
      hmark hvw (fun slot => .strum (slot - 1) pattern) fun _ => trivial)
  | alfabeto chord =>
    exact .get_bind (H.abreast_onStave hst h fun v w hvw =>
      hmark hvw (.alfabeto · chord) fun _ => trivial)
  | sectionSign =>
    exact .get_bind (H.abreast_onStave hst h fun v w hvw =>
      hmark hvw (fun slot => .sectionSign (slot - 1)) fun _ => trivial)
  | blank =>
    have hcurrent := hst.rel_currentStave?
    refine .get_bind ?_
    dsimp only
    cases hv : s.document.currentStave? <;> cases hw : t.document.currentStave? <;>
      rw [hv, hw] at hcurrent <;> cases hcurrent
    · exact .ok hst
    · rename_i hvw
      exact .ok (H.setStave hst (H.advance 1 hvw))
  | setting _ _ | courses _ | fretMap _ | flag _ | comment | ignored => exact hobey rfl

end Simulation

/-! ## Runs -/

/-- Two runs of which the lines go together one by one, but for `idle` ones in the first and
`idle'` ones in the second. -/
inductive SameBut (P : NumberedLine → NumberedLine → Prop) (idle idle' : Line → Prop) :
    List NumberedLine → List NumberedLine → Prop where
  | nil : SameBut P idle idle' [] []
  | left {m : NumberedLine} {ms ns : List NumberedLine} : idle m.line →
    SameBut P idle idle' ms ns → SameBut P idle idle' (m :: ms) ns
  | right {n : NumberedLine} {ms ns : List NumberedLine} : idle' n.line →
    SameBut P idle idle' ms ns → SameBut P idle idle' ms (n :: ns)
  | both {m n : NumberedLine} {ms ns : List NumberedLine} : P m n →
    SameBut P idle idle' ms ns → SameBut P idle idle' (m :: ms) (n :: ns)

/-- Two runs of which the same lines are kept are the same but for those that are not. -/
theorem sameBut_of_filter {idle idle' : Line → Prop} {keep : Line → Bool}
    (hidle : ∀ line, ¬ keep line = true → idle line ∧ idle' line) {ms ns : List NumberedLine}
    (h : (ms.map NumberedLine.line).filter keep = (ns.map NumberedLine.line).filter keep) :
    SameBut (fun m n => m.line = n.line) idle idle' ms ns := by
  induction ms generalizing ns with
  | nil =>
    induction ns with
    | nil => exact .nil
    | cons n ns ih =>
      rw [List.map_cons, List.filter_cons] at h
      split at h
      · cases h
      · rename_i hn
        exact .right (hidle _ hn).2 (ih h)
  | cons m ms ih =>
    rw [List.map_cons, List.filter_cons] at h
    split at h
    · rename_i hm
      induction ns with
      | nil => cases h
      | cons n ns ihn =>
        rw [List.map_cons, List.filter_cons] at h
        split at h
        · obtain ⟨hline, h⟩ := List.cons.inj h
          exact .both hline (ih h)
        · rename_i hn
          exact .right (hidle _ hn).2 (ihn h)
    · rename_i hm
      exact .left (hidle _ hm).1 (ih h)

/-- A directive that a relation between layouts does not see on its left: it can be obeyed, and
the layout that comes of it is related to whatever the layout before it was related to. -/
def Line.IsUnseen (R : Layout α → Layout α → Prop) (line : Line) : Prop :=
  line.isOffPage = true ∧ ∃ c, line.change? = .ok c ∧ ∀ l l', R l l' → R (l.change c) l'

namespace Score

/-- A directive that can be obeyed changes the layout and nothing else. -/
theorem step_of_isOffPage {s : Score α} {n : NumberedLine} {c : Layout.Change α}
    (hn : n.line.isOffPage = true) (hc : n.line.change? = .ok c) :
    s.step n = .ok (s.setLayout (s.layout.change c)) := by
  have hobey : s.layout.obey n.line = .ok (s.layout.change c) := Layout.obey_eq_ok.2 ⟨c, hc, rfl⟩
  rw [step_eq]
  split <;> simp_all [Line.isOffPage] <;> rfl

/-- What stops the lines where they are fed one by one. -/
def faults (s : Score α) : List NumberedLine → List (Stop α)
  | [] => []
  | n :: lines => (s.feed n).2.toList ++ (s.feed n).1.faults lines

end Score

namespace Simulation

section

variable {out : Stop α → Prop} {kinds : Line → Prop} {R : Layout α → Layout α → Prop}
  {E : Page α → Page α → Prop} {T : Stave α → Stave α → Prop} (H : Simulation out kinds R E T)
  {P : NumberedLine → NumberedLine → Prop} {F : Stop α → Stop α → Prop}
  (hP : ∀ {m n : NumberedLine}, P m n → m.line = n.line)
  (hF : ∀ {s t : Score α} {m n : NumberedLine} {e f : Stop α}, P m n → s.step m = .error e →
    t.step n = .error f → e.Alike f → F e f)

include H hP hF

/-- Two runs that are the same but for lines that are not seen go in step, unless the first is
out. -/
theorem agree_stepAll {ms ns : List NumberedLine} (hkinds : ∀ m ∈ ms, kinds m.line)
    (h : SameBut P (Line.IsUnseen R) (Line.IsUnseen (flip R)) ms ns) {s t : Score α}
    (hst : s.InStep R E T t) :
    (∃ e, out e ∧ s.stepAll ms = .error e) ∨
      Agree F (Score.InStep R E T) (s.stepAll ms) (t.stepAll ns) := by
  unfold Score.stepAll
  induction h generalizing s t with
  | nil => exact .inr (.ok hst)
  | left hm _ ih =>
    obtain ⟨hoff, c, hc, hR⟩ := hm
    rw [List.foldlM_cons, Score.step_of_isOffPage hoff hc]
    exact ih (fun m hm => hkinds m (List.mem_cons_of_mem _ hm)) ⟨hR _ _ hst.layout, hst.pages⟩
  | right hn _ ih =>
    obtain ⟨hoff, c, hc, hR⟩ := hn
    rw [List.foldlM_cons (f := Score.step), Score.step_of_isOffPage hoff hc]
    exact ih hkinds ⟨hR _ _ hst.layout, hst.pages⟩
  | @both m n ms ns hmn _ ih =>
    have hput := H.abreast_put hst (hP hmn) (hkinds m List.mem_cons_self)
    rw [List.foldlM_cons, List.foldlM_cons]
    obtain ⟨e, he, hstop⟩ | hstep := hput.agree
    · exact .inl ⟨e, he, bind_eq_error.2 (.inl hstop)⟩
    change Agree Stop.Alike _ (s.step m) (t.step n) at hstep
    cases hs : s.step m <;> cases ht : t.step n <;> rw [hs, ht] at hstep <;> cases hstep
    · rename_i he
      exact .inr (.error (hF hmn hs ht he))
    · rename_i hst
      exact ih (fun m hm => hkinds m (List.mem_cons_of_mem _ hm)) hst

end

section

variable {kinds : Line → Prop} {R : Layout α → Layout α → Prop} {E : Page α → Page α → Prop}
  {T : Stave α → Stave α → Prop} (H : Simulation (fun _ => False) kinds R E T)

include H

/-- Feeding the same line to two scores in step keeps them in step, and the same stops it. -/
theorem inStep_feed {s t : Score α} (hst : s.InStep R E T t) {m n : NumberedLine}
    (h : m.line = n.line) (hk : kinds m.line) : (s.feed m).1.InStep R E T (t.feed n).1 ∧
      (s.feed m).2.map Stop.unnumbered = (t.feed n).2.map Stop.unnumbered := by
  have hput := H.abreast_put hst h hk
  refine ⟨hput.after, ?_⟩
  have hstop : Option.Rel Stop.Alike (s.feed m).2 (t.feed n).2 := hput.stop?
  cases hs : (s.feed m).2 <;> cases ht : (t.feed n).2 <;> rw [hs, ht] at hstop <;> cases hstop
  rename_i h
  exact congrArg some h

/-- Fed line by line, they leave the scores in step, and the same faults are found. -/
theorem inStep_feedAll {ms ns : List NumberedLine} (hkinds : ∀ m ∈ ms, kinds m.line)
    (h : SameBut (fun m n => m.line = n.line) (Line.IsUnseen R) (Line.IsUnseen (flip R)) ms ns)
    {s t : Score α} (hst : s.InStep R E T t) : (s.feedAll ms).InStep R E T (t.feedAll ns) ∧
      (s.faults ms).map Stop.unnumbered = (t.faults ns).map Stop.unnumbered := by
  unfold Score.feedAll
  induction h generalizing s t with
  | nil => exact ⟨hst, rfl⟩
  | left hm _ ih =>
    obtain ⟨hoff, c, hc, hR⟩ := hm
    simp only [List.foldl_cons, Score.faults, Score.feed_of_ok (Score.step_of_isOffPage hoff hc)]
    exact ih (fun m hm => hkinds m (List.mem_cons_of_mem _ hm)) ⟨hR _ _ hst.layout, hst.pages⟩
  | right hn _ ih =>
    obtain ⟨hoff, c, hc, hR⟩ := hn
    simp only [List.foldl_cons, Score.faults, Score.feed_of_ok (Score.step_of_isOffPage hoff hc)]
    exact ih hkinds ⟨hR _ _ hst.layout, hst.pages⟩
  | both hline _ ih =>
    obtain ⟨hfeed, hfault⟩ := H.inStep_feed hst hline (hkinds _ List.mem_cons_self)
    obtain ⟨hrest, hfaults⟩ := ih (fun m hm => hkinds m (List.mem_cons_of_mem _ hm)) hfeed
    refine ⟨hrest, ?_⟩
    have hhead := congrArg Option.toList hfault
    rw [Option.toList_map, Option.toList_map] at hhead
    rw [Score.faults, Score.faults, List.map_append, List.map_append, hhead, hfaults]

end

end Simulation

/-! ## Layouts of which lines see a part -/

/-- What `view` keeps of a layout is all that lines of some kinds take from it. -/
structure Layout.Suffices (view : Layout α → Layout α) (kinds : Line → Prop) : Prop where
  change (l : Layout α) (c : Change α) : view (l.change c) = view ((view l).change c)
  styled (l : Layout α) {line : Line} {m : Mark} : kinds line → line.Writes m →
    m.styled (view l) = m.styled l
  page (l : Layout α) {text : String} : kinds (.page text) → Page.blank (view l) = Page.blank l
  title (l : Layout α) (p : Page α) {text : String} : kinds (.title text) →
    p.setTitle (view l) text = p.setTitle l text
  composer (l : Layout α) (p : Page α) {text : String} : kinds (.composer text) →
    p.setComposer (view l) text = p.setComposer l text
  stave (l : Layout α) : kinds .stave → Stave.blank (view l) = Stave.blank l

/-- Two scores with one document, of whose layouts `view` keeps the same. -/
def Score.SameView (view : Layout α → Layout α) (s t : Score α) : Prop :=
  view s.layout = view t.layout ∧ s.document = t.document

/-- A directive that changes nothing that `view` keeps is not seen. -/
theorem Line.isUnseen_of_view {view : Layout α → Layout α} {line : Line} {c : Layout.Change α}
    (hline : line.isOffPage = true) (hc : line.change? = .ok c)
    (hview : ∀ l, view (l.change c) = view l) :
    line.IsUnseen (fun l l' => view l = view l') ∧
      line.IsUnseen (flip fun l l' => view l = view l') :=
  ⟨⟨hline, c, hc, fun l _ => (hview l).trans⟩, hline, c, hc, fun l _ h => h.trans (hview l).symm⟩

/-- So is a directive that can be read, if nothing that it can tell changes what `view` keeps. -/
theorem Line.isUnseen_of_readable {view : Layout α → Layout α} {line : Line}
    (hline : line.isOffPage = true)
    (hread : (line.change? : Except Refusal (Layout.Change α)).toOption.isSome = true)
    (hview : ∀ {c : Layout.Change α}, line.change? = .ok c → ∀ l, view (l.change c) = view l) :
    line.IsUnseen (fun l l' => view l = view l') ∧
      line.IsUnseen (flip fun l l' => view l = view l') := by
  obtain ⟨c, hc⟩ := Option.isSome_iff_exists.1 hread
  rw [toOption_eq_some] at hc
  exact isUnseen_of_view hline hc (hview hc)

/-- The page without its staves. -/
def Page.bare (p : Page α) : Page α := { p with staves := [] }

omit [Scalar α] in
theorem Page.inStep_eq_iff {p q : Page α} : p.InStep (fun p q => p.bare = q.bare) Eq q ↔ p = q := by
  unfold Page.InStep
  rw [List.forall₂_eq_eq_eq]
  constructor
  · rintro ⟨hbare, hstaves⟩
    cases p
    cases q
    simp_all [bare]
  · rintro rfl
    exact ⟨rfl, rfl⟩

omit [Scalar α] in
theorem Score.inStep_eq_iff {view : Layout α → Layout α} {s t : Score α} :
    s.InStep (fun l l' => view l = view l') (fun p q => p.bare = q.bare) Eq t ↔
      s.SameView view t := by
  have hpage : Page.InStep (α := α) (fun p q => p.bare = q.bare) Eq = Eq := by
    funext p q
    exact propext Page.inStep_eq_iff
  constructor
  · rintro ⟨hl, hpages⟩
    rw [hpage, List.forall₂_eq_eq_eq] at hpages
    exact ⟨hl, congrArg Document.mk hpages⟩
  · rintro ⟨hl, hd⟩
    refine ⟨hl, ?_⟩
    rw [hd, hpage, List.forall₂_eq_eq_eq]

namespace Layout.Suffices

variable {view : Layout α → Layout α} {kinds : Line → Prop} (H : Suffices view kinds)

include H

/-- Layouts of which `view` keeps the same do the same to one document. -/
theorem simulation : Simulation (fun _ => False) kinds (fun l l' => view l = view l')
    (fun p q => p.bare = q.bare) Eq where
  change {l l' line c} _ _ hl := by
    rw [H.change l, hl, ← H.change l']
  cursor := congrArg Stave.cursor
  courses := congrArg fun v : Stave α => v.courses
  openSlur := congrArg Stave.openSlur
  countable h := .inl (congrArg (fun v : Stave α => v.isCountable) h)
  advance slots := congrArg (Stave.advance · slots)
  setSlur start := congrArg fun v : Stave α => { v with openSlur := start }
  place {l l' v w line m} hk hw hl := by
    rintro rfl
    have h : m.styled l = m.styled l' := by rw [← H.styled l hk hw, hl, H.styled l' hk hw]
    unfold Stave.place Mark.place
    rw [h]
  staves vs ws := id
  page {l l' text} number first hk hl := by
    rw [← H.page l hk, hl, H.page l' hk]
  title {l l' p q text} hk hl hpq := by
    rw [← H.title l p hk, hl, H.title l' p hk]
    exact congrArg (Page.setTitle · l' text) hpq
  composer {l l' p q text} hk hl hpq := by
    rw [← H.composer l p hk, hl, H.composer l' p hk]
    exact congrArg (Page.setComposer · l' text) hpq
  number {p q} hpq := by
    have h : p.bare.number = q.bare.number := by rw [hpq]
    exact h
  staveLength {p q} hpq := by
    have h : p.bare.staveLength = q.bare.staveLength := by rw [hpq]
    exact h
  stave {l l' p q} index first hk hl hpq := by
    rw [← H.stave l hk, hl, H.stave l' hk]
    let place (p : Page α) : Stave α := (Stave.blank l' first).moveTo p.leftMargin
      (p.staveY index (Stave.blank l' first).height) p.staveLength
    have h : place p.bare = place q.bare := by rw [hpq]
    exact h

variable {ms ns : List NumberedLine} (hkinds : ∀ m ∈ ms, kinds m.line)
  (h : SameBut (fun m n => m.line = n.line) (Line.IsUnseen fun l l' => view l = view l')
    (Line.IsUnseen (flip fun l l' => view l = view l')) ms ns) {s t : Score α}
  (hst : s.SameView view t)

include hkinds h hst

theorem agree_stepAll : Agree Stop.Alike (Score.SameView view) (s.stepAll ms) (t.stepAll ns) := by
  obtain ⟨_, hout, -⟩ | hrun := H.simulation.agree_stepAll id (fun _ _ _ => id) hkinds h
    (Score.inStep_eq_iff.2 hst)
  · exact hout.elim
  · exact hrun.imp_ok fun _ _ => Score.inStep_eq_iff.1

theorem sameView_feedAll : (s.feedAll ms).SameView view (t.feedAll ns) ∧
    (s.faults ms).map Stop.unnumbered = (t.faults ns).map Stop.unnumbered :=
  (H.simulation.inStep_feedAll hkinds h (Score.inStep_eq_iff.2 hst)).imp_left
    Score.inStep_eq_iff.1

end Layout.Suffices

end Tablature
