import Mathlib.Algebra.GroupWithZero.Nat
import Tablature.Proofs.Sections

/-!
# What the lines of a stave say

Each line of a stave takes a number of slots and tells what is written in them. The
stave of a document has gone as far as its lines together, and its glyphs are what
they tell, in their order: no mark is lost, none is written twice, and none is moved
to another stave.

* `Line.width`, `Line.events?`: the slots that a line takes, and what it tells;
* `writeLine_events`: writing a line adds what it tells and goes on by its width;
* `accounts_of_parse`: the pages, the staves and the marks of a document are those that
  its source tells.
-/

namespace Tablature

/-- What a line tells of a mark. A line tells where a slur ends; where it began, an earlier
line may have told. -/
inductive Event where
  | mark (m : Mark)
  | slurEnd (stop : Anchor)
  deriving DecidableEq, Repr

/-- What the line that writes a mark tells of it. -/
def Mark.event : Mark → Event
  | slur _ stop => .slurEnd stop
  | m => .mark m

/-- What a note token in slot `slot` tells. The beginning of a slur tells of no mark. -/
def NoteToken.events (slot : Nat) (t : NoteToken) : List Event :=
  match t.sign with
  | .fret text => [.mark (.note slot t.course text)]
  | .semicircle side => [.mark (.semicircle side slot t.course)]
  | .slurBegin => []
  | .slurEnd => [.slurEnd ⟨slot, t.course⟩]

namespace Line

/-- How many slots a line takes. -/
def width : Line → Nat
  | notes _ _ | blank | barline .single _ | barline .double _ => 1
  | timeSignature _ => 3
  | _ => 0

/-- What a line at slot `slot` tells, if its argument can be read. -/
def events? (slot : Nat) : Line → Option (List Event)
  | timeSignature figures =>
    (readMeter figures).toOption.map fun meter => [.mark (.timeSignature slot meter)]
  | barline kind label =>
    some [.mark (.barline kind slot (if label.isEmpty then none else some label))]
  | barberpole range =>
    if range.isEmpty then some [.mark (.barberpole slot none)]
    else (readCourseRange range).toOption.map fun ends => [.mark (.barberpole slot (some ends))]
  | notes rhythm tokens =>
    ((Text.words tokens.toList).mapM NoteToken.read?).map fun ts =>
      rhythm.toList.map (fun r => .mark (.tick slot r)) ++ ts.flatMap (NoteToken.events slot)
  | strum pattern => some [.mark (.strum (slot - 1) pattern)]
  | alfabeto chord => some [.mark (.alfabeto slot chord)]
  | sectionSign => some [.mark (.sectionSign (slot - 1))]
  | _ => some []

/-- The number of the page that a line begins, as it can be read. -/
def pageNumber? : Line → Option (Except Refusal Nat)
  | page text => some (readPageNumber text)
  | _ => none

end Line

/-- How many slots lines take together. -/
def totalWidth (lines : List NumberedLine) : Nat := (lines.map fun n => n.line.width).sum

/-- What lines tell in their order, from slot `slot` on, each at the slot that those before it
have reached. -/
def events? : Nat → List NumberedLine → Option (List Event)
  | _, [] => some []
  | slot, n :: lines => do
    let here ← n.line.events? slot
    let rest ← events? (slot + n.line.width) lines
    return here ++ rest

@[simp] theorem totalWidth_concat (lines : List NumberedLine) (n : NumberedLine) :
    totalWidth (lines ++ [n]) = totalWidth lines + n.line.width := by
  simp [totalWidth]

theorem events?_concat {slot : Nat} {lines : List NumberedLine} {n : NumberedLine}
    {es es' : List Event} (h : events? slot lines = some es)
    (h' : n.line.events? (slot + totalWidth lines) = some es') :
    events? slot (lines ++ [n]) = some (es ++ es') := by
  induction lines generalizing slot es with
  | nil =>
    cases h
    have h' : n.line.events? slot = some es' := h'
    simp [events?, h']
  | cons m lines ih =>
    simp only [events?, Option.bind_eq_bind, Option.bind_eq_some_iff] at h
    obtain ⟨here, hm, rest, hr, h⟩ := h
    cases h
    rw [totalWidth, List.map_cons, List.sum_cons, ← Nat.add_assoc] at h'
    simp [events?, hm, ih hr h']

/-! ## Writing -/

variable {α : Type}

/-- What was told of the marks on a stave. -/
def Stave.events (v : Stave α) : List Event := v.glyphs.map fun g => g.mark.event

variable [Scalar α]

namespace Stave

@[simp] theorem events_place (v : Stave α) (l : Layout α) (m : Mark) :
    (v.place l m).events = v.events ++ [m.event] := by
  simp [events, place]

@[simp] theorem events_justify (v : Stave α) : v.justify.events = v.events := by
  unfold justify
  split
  · rfl
  · simp [events]

/-- Writing a note token adds what it tells. -/
theorem writeNote_events {l : Layout α} {v w : Stave α} {t : NoteToken}
    (h : v.writeNote? l t = some w) :
    w.cursor = v.cursor ∧ w.events = v.events ++ t.events v.cursor := by
  obtain ⟨course, sign⟩ := t
  cases sign with
  | fret text => cases h; exact ⟨rfl, events_place ..⟩
  | semicircle side => cases h; exact ⟨rfl, events_place ..⟩
  | slurBegin => cases h; exact ⟨rfl, (List.append_nil _).symm⟩
  | slurEnd =>
    obtain ⟨start, -, rfl⟩ := Option.map_eq_some_iff.1 h
    exact ⟨rfl, events_place ..⟩

/-- Writing note tokens adds what they tell, in their order, and all of them can be read. -/
theorem writeTokens_events {l : Layout α} {line : Nat} {tokens : List (List Char)}
    {v w : Stave α} (h : tokens.foldlM (writeToken l line) v = .ok w) :
    w.cursor = v.cursor ∧ ∃ ts, tokens.mapM NoteToken.read? = some ts ∧
      w.events = v.events ++ ts.flatMap (NoteToken.events v.cursor) := by
  induction tokens generalizing v with
  | nil => cases h; exact ⟨rfl, [], rfl, (List.append_nil _).symm⟩
  | cons token tokens ih =>
    rw [List.foldlM_cons] at h
    obtain ⟨u, hu, h⟩ := bind_eq_ok.1 h
    obtain ⟨t, ht, -, hu, -⟩ := writeToken_eq_ok.1 hu
    obtain ⟨cu, eu⟩ := writeNote_events hu
    obtain ⟨cw, ts, hts, ew⟩ := ih h
    refine ⟨cw.trans cu, t :: ts, by simp [List.mapM_cons, ht, hts], ?_⟩
    rw [ew, eu, cu, List.flatMap_cons, List.append_assoc]

theorem writeRhythm_events (l : Layout α) (v : Stave α) (rhythm : Option Rhythm) :
    (v.writeRhythm l rhythm).cursor = v.cursor ∧
      (v.writeRhythm l rhythm).events =
        v.events ++ rhythm.toList.map fun r => .mark (.tick v.cursor r) := by
  cases rhythm with
  | none => exact ⟨rfl, (List.append_nil _).symm⟩
  | some r => exact ⟨rfl, events_place ..⟩

/-- Writing a line adds what it tells and goes on by its width. -/
theorem writeLine_events {l : Layout α} {v w : Stave α} {n : NumberedLine}
    (h : v.writeLine l n = .ok w) :
    w.cursor = v.cursor + n.line.width ∧
      ∃ es, n.line.events? v.cursor = some es ∧ w.events = v.events ++ es := by
  obtain ⟨number, line⟩ := n
  cases line with
  | timeSignature figures =>
    obtain ⟨meter, hm, h⟩ := bind_eq_ok.1 h
    cases h
    have hm := toOption_eq_some.2 (Score.argument_eq_ok.1 hm)
    exact ⟨rfl, [.mark (.timeSignature v.cursor meter)], by simp [Line.events?, hm], events_place ..⟩
  | barline kind label =>
    cases h
    cases kind <;> exact ⟨rfl, _, rfl, events_place ..⟩
  | barberpole text =>
    obtain ⟨range, hr, h⟩ := bind_eq_ok.1 h
    split at h <;> cases h
    refine ⟨rfl, [.mark (.barberpole v.cursor range)], ?_, events_place ..⟩
    unfold Score.barberpoleRange at hr
    split at hr
    · rename_i he
      cases hr
      simp [Line.events?, he]
    · rename_i he
      obtain ⟨ends, hends, hr⟩ := bind_eq_ok.1 hr
      obtain ⟨_, -, hr⟩ := bind_eq_ok.1 hr
      obtain ⟨_, -, hr⟩ := bind_eq_ok.1 hr
      cases hr
      have hends := toOption_eq_some.2 (Score.argument_eq_ok.1 hends)
      simp [Line.events?, he, hends]
  | notes rhythm tokens =>
    obtain ⟨u, hu, h⟩ := bind_eq_ok.1 h
    cases h
    obtain ⟨cr, er⟩ := writeRhythm_events l v rhythm
    obtain ⟨cu, ts, hts, eu⟩ := writeTokens_events hu
    refine ⟨congrArg (· + 1) (cu.trans cr), _, by simp only [Line.events?, hts]; rfl, ?_⟩
    have : (u.advance 1).events = u.events := rfl
    rw [this, eu, er, cr, List.append_assoc]
  | strum pattern => cases h; exact ⟨rfl, _, rfl, events_place ..⟩
  | alfabeto chord => cases h; exact ⟨rfl, _, rfl, events_place ..⟩
  | sectionSign => cases h; exact ⟨rfl, _, rfl, events_place ..⟩
  | _ => cases h; exact ⟨rfl, [], rfl, (List.append_nil _).symm⟩

/-- A stave that has gone as far as its lines, and has on it what they tell. -/
structure Accounts (v : Stave α) (lines : List NumberedLine) : Prop where
  cursor : v.cursor = totalWidth lines
  events : Tablature.events? 0 lines = some v.events

theorem reading_accounts : Reading (α := α) Accounts where
  begin _ _ _ _ _ := ⟨rfl, rfl⟩
  line hv h := by
    obtain ⟨c, es, hes, e⟩ := writeLine_events h
    refine ⟨by rw [c, hv.cursor, totalWidth_concat], ?_⟩
    rw [e]
    exact events?_concat hv.events (by rwa [Nat.zero_add, ← hv.cursor])

theorem Accounts.justify {v : Stave α} {lines : List NumberedLine} (h : v.Accounts lines) :
    v.justify.Accounts lines :=
  ⟨by rw [cursor_justify]; exact h.cursor, by rw [events_justify]; exact h.events⟩

end Stave

/-! ## Pages -/

namespace Score

/-- Only a page line adds a page, and it adds one. -/
theorem Wrote.map_number {s s' : Score α} {n : NumberedLine} (h : s.Wrote n s')
    (hn : n.line.beginsPage = false) :
    s'.document.pages.map Page.number = s.document.pages.map Page.number := by
  obtain ⟨h, -⟩ | h := h.map_pages (f := Page.number) (fun _ _ _ _ => rfl)
  · rw [h] at hn; cases hn
  · exact h

/-- The pages of a document are numbered as the page lines say. -/
def Numbered (d : Document α) (lines : List NumberedLine) : Prop :=
  lines.filterMap (fun n => n.line.pageNumber?) = (d.pages.map Page.number).map .ok

theorem Wrote.numbered {s s' : Score α} {n : NumberedLine} {lines : List NumberedLine}
    (h : s.Wrote n s') (hs : Numbered s.document lines) : Numbered s'.document (lines ++ [n]) := by
  unfold Numbered at hs ⊢
  rw [List.filterMap_append, hs]
  by_cases hn : n.line.beginsPage = false
  · have hnone : n.line.pageNumber? = none := by
      obtain ⟨number, line⟩ := n
      cases line <;> first | rfl | cases hn
    simp [hnone, h.map_number hn]
  · cases h with
    | page h hk => simp [h, Line.pageNumber?, hk, addPage, Document.addPage, Page.blank]
    | stave h _ _ | title h _ | composer h _ | blank h _ => rw [h] at hn; exact absurd rfl hn
    | onStave h _ _ => exact absurd (Line.begins_of_isOnStave h).1 hn
    | offPage h _ => exact absurd (Line.begins_of_isOffPage h).1 hn

theorem numbered_of_stepAll {s s' : Score α} {before lines : List NumberedLine}
    (h : s.stepAll lines = .ok s') (hs : Numbered s.document before) :
    Numbered s'.document (before ++ lines) :=
  stepAll_induction (P := fun s lines => Numbered s.document lines) Wrote.numbered before h hs

theorem Numbered.finish {s : Score α} {lines : List NumberedLine}
    (h : Numbered s.document lines) : Numbered s.finish lines := by
  unfold Score.finish
  split
  · unfold Numbered
    rw [h]
    simp [Document.justify, Page.justify]
  · exact h

/-- The pages of a document are those of the page lines of its source, in order, and the
staves of each page are those of the stave lines behind its page line. A stave has gone as
far as the lines behind its stave line together, and its glyphs are what these lines tell,
in their order, each in the slot that the lines before it have reached. -/
theorem accounts_of_parse {source : String} {d : Document α} (h : parse source = .ok d) :
    Numbered d (Line.tokenize source) ∧ d.Follows Stave.Accounts (Line.tokenize source) := by
  obtain ⟨s, hs, rfl⟩ := parse_eq_ok.1 h
  have hnil : Numbered (empty : Score α).document [] := rfl
  exact ⟨(numbered_of_stepAll hs hnil).finish,
    (Stave.reading_accounts.follows hs).finish Stave.Accounts.justify⟩

/-- Two pages, the second with two staves, lines before a stave, and a slur that ends on the
line behind the one that it began on. -/
theorem accounts_two_pages : ∃ d : Document Float,
    parse "P-1\nS-\nT-3\nC 1-0 2-[\n2-]\n\nR-UD\nP-7\n\nS-\nS-\nB-\n1-a" = .ok d ∧
      d.pages.map (fun p => (p.number, p.staves.map fun v => (v.cursor, v.glyphs.length))) =
        [(1, [(6, 5)]), (7, [(0, 0), (2, 2)])] ∧
      Numbered d (Line.tokenize "P-1\nS-\nT-3\nC 1-0 2-[\n2-]\n\nR-UD\nP-7\n\nS-\nS-\nB-\n1-a") ∧
      d.Follows Stave.Accounts
        (Line.tokenize "P-1\nS-\nT-3\nC 1-0 2-[\n2-]\n\nR-UD\nP-7\n\nS-\nS-\nB-\n1-a") := by
  have h : ((parse "P-1\nS-\nT-3\nC 1-0 2-[\n2-]\n\nR-UD\nP-7\n\nS-\nS-\nB-\n1-a").toOption.map
      fun d : Document Float =>
        d.pages.map fun p => (p.number, p.staves.map fun v => (v.cursor, v.glyphs.length))) =
      some [(1, [(6, 5)]), (7, [(0, 0), (2, 2)])] := by
    decide +kernel
  obtain ⟨d, hd, hv⟩ := exists_of_toOption_map h
  exact ⟨d, hd, hv, accounts_of_parse hd⟩

end Score

end Tablature
