import Tablature.Proofs.Slurs

/-!
# Unmatched slurs

A slur that ends where none has begun stops a source. Which bracket that is can be
read off the lines: the first that ends a slur and is the first of its stave or
directly behind another that ends one. To say that nothing else is wrong with a
source, it is run once more, passing over such brackets.

* `firstUnmatched?`: the first such bracket of a source;
* `Score.stepLeniently`, `Acceptable`: the run that passes over them;
* `stepAll_of_leniently`: where that run succeeds, the run proper does too, or stops
  at the first unmatched bracket;
* `slurs_of_parse`: the slurs of a document, and the sources that slurs stop.
-/

namespace Tablature

/-- The first bracket of a source that ends a slur and is the first of its stave or directly
behind another that ends one. -/
def firstUnmatched? (lines : List NumberedLine) : Option Bracket :=
  (staveLines lines).findSome? fun ls => unmatched? (brackets 0 ls)

theorem firstUnmatched?_concat {lines : List NumberedLine} {b : Bracket}
    (h : firstUnmatched? lines = some b) (n : NumberedLine) :
    firstUnmatched? (lines ++ [n]) = some b := by
  unfold firstUnmatched? at h ⊢
  obtain e | e | ⟨init, last, e, e'⟩ := staveLines_concat lines n
  · rwa [e]
  · rw [e, List.findSome?_append, h]
    rfl
  · rw [e, List.findSome?_append] at h
    rw [e', List.findSome?_append]
    cases hi : init.findSome? fun ls => unmatched? (brackets 0 ls) with
    | some c => rwa [hi] at h
    | none =>
      rw [hi, Option.none_or, List.findSome?_singleton] at h
      rw [Option.none_or, List.findSome?_singleton, brackets_concat]
      exact unmatched?_append h _

/-- What is unmatched stays so, whatever lines follow. -/
theorem firstUnmatched?_append {lines : List NumberedLine} {b : Bracket}
    (h : firstUnmatched? lines = some b) (more : List NumberedLine) :
    firstUnmatched? (lines ++ more) = some b := by
  induction more generalizing lines with
  | nil => rwa [List.append_nil]
  | cons n more ih =>
    rw [List.append_cons]
    exact ih (firstUnmatched?_concat h n)

variable {α : Type} {d : Document α} {lines : List NumberedLine}

/-- In lines that were written, nothing is unmatched. -/
theorem firstUnmatched?_eq_none (h : d.Follows Stave.Slurred lines) :
    firstUnmatched? lines = none := by
  refine List.findSome?_eq_none_iff.2 (h.forall_staveLines fun v ls hv => ?_)
  exact unmatched?_eq_none hv.slurs

/-- Behind lines that were written, the first unmatched bracket on the current stave is the
first of all. -/
theorem firstUnmatched?_of_currentStave (h : d.Follows Stave.Slurred lines) {v : Stave α}
    (hv : d.currentStave? = some v) {n : NumberedLine} (hn : n.line.isOnStave = true) :
    ∃ bs, v.HasBrackets bs ∧ ∀ b, unmatched? (bs ++ n.brackets v.cursor) = some b →
      firstUnmatched? (lines ++ [n]) = some b := by
  obtain ⟨hpage, hstave⟩ := Line.begins_of_isOnStave hn
  obtain ⟨init, last, e, e', hlast⟩ := h.staveLines_of_currentStave hv hpage hstave
  refine ⟨brackets 0 last, hlast.toHasBrackets, fun b hb => ?_⟩
  have hnone := firstUnmatched?_eq_none h
  rw [firstUnmatched?, e, List.findSome?_append, Option.or_eq_none_iff] at hnone
  rw [firstUnmatched?, e', List.findSome?_append, hnone.1, Option.none_or,
    List.findSome?_singleton, brackets_concat, Nat.zero_add, ← hlast.cursor]
  exact hb

variable [Scalar α]

/-! ## Passing over unmatched brackets -/

/-- Writes a note token, but passes over the end of a slur that has not begun. -/
def Stave.writeTokenLeniently (l : Layout α) (line : Nat) (v : Stave α) (token : List Char) :
    Except (Stop α) (Stave α) :=
  match v.writeToken l line token with
  | .error (.fault (.unmatchedSlur _ _)) => .ok v
  | r => r

/-- Writes a line as `Score.step` does, but passes over the ends of slurs that have not
begun. -/
def Score.stepLeniently (s : Score α) (n : NumberedLine) : Except (Stop α) (Score α) :=
  match n.line with
  | .notes rhythm tokens => do
    let v ← s.staveFor n
    let v ← (Text.words tokens.toList).foldlM (Stave.writeTokenLeniently s.layout n.number)
      (v.writeRhythm s.layout rhythm)
    return s.setStave (v.advance 1)
  | _ => s.step n

variable (α) in
/-- Lines with which nothing is wrong but that slurs may end in them which have not begun. -/
def Acceptable (lines : List NumberedLine) : Prop :=
  ∃ s : Score α, lines.foldlM Score.stepLeniently Score.empty = .ok s

namespace Stave.HasBrackets

variable {l : Layout α} {v w : Stave α} {bs : List Bracket}

/-- Only the end of a slur cannot be written, and only if it is unmatched. -/
theorem unmatched (h : v.HasBrackets bs) (line : Nat) {t : NoteToken}
    (ht : v.writeNote? l t = none) : ∃ b, t.bracket? line v.cursor = some b ∧ b.line = line ∧
      b.anchor.course = t.course ∧ unmatched? (bs ++ [b]) = some b := by
  obtain ⟨course, sign⟩ := t
  cases sign with
  | slurEnd =>
    refine ⟨⟨line, false, ⟨v.cursor, course⟩⟩, rfl, rfl, rfl, ?_⟩
    have hopen : v.openSlur = none := Option.map_eq_none_iff.1 ht
    exact unmatched?_concat (unmatched?_eq_none h.slurs) (h.openSlur.symm.trans hopen) rfl
  | _ => cases ht

/-- A token that can be written leniently can be written, or ends a slur that has not begun. -/
theorem writeToken_of_leniently (h : v.HasBrackets bs) {line : Nat} {token : List Char}
    (hw : v.writeTokenLeniently l line token = .ok w) :
    v.writeToken l line token = .ok w ∨
      ∃ t b, v.writeToken l line token = .error (.fault (.unmatchedSlur b.line b.anchor.course)) ∧
        NoteToken.read? token = some t ∧ t.bracket? line v.cursor = some b ∧
        unmatched? (bs ++ [b]) = some b := by
  unfold writeTokenLeniently at hw
  rw [writeToken_eq] at hw ⊢
  cases ht : NoteToken.read? token with
  | none => simp [ht] at hw
  | some t =>
    simp only [ht] at hw ⊢
    split
    · rename_i hc
      rw [if_pos hc] at hw
      cases hn : v.writeNote? l t with
      | some u =>
        simp only [hn] at hw ⊢
        split
        · rename_i hcount
          rw [if_pos hcount] at hw
          exact .inl hw
        · rename_i hcount
          rw [if_neg hcount] at hw
          cases hw
      | none =>
        obtain ⟨b, hb, hline, hcourse, hbs⟩ := h.unmatched line hn
        exact .inr ⟨t, b, by rw [hline, hcourse], rfl, hb, hbs⟩
    · rename_i hc
      simp [hc] at hw

/-- Tokens that can be written leniently can be written, or stop at the first unmatched
bracket. -/
theorem writeTokens_of_leniently (h : v.HasBrackets bs) {line : Nat} {tokens : List (List Char)}
    (hw : tokens.foldlM (writeTokenLeniently l line) v = .ok w) :
    tokens.foldlM (writeToken l line) v = .ok w ∨
      ∃ b, tokens.foldlM (writeToken l line) v =
          .error (.fault (.unmatchedSlur b.line b.anchor.course)) ∧
        unmatched? (bs ++ tokenBrackets line v.cursor tokens) = some b := by
  induction tokens generalizing v bs with
  | nil => exact .inl hw
  | cons token tokens ih =>
    rw [List.foldlM_cons] at hw ⊢
    obtain ⟨u, hu, hw⟩ := bind_eq_ok.1 hw
    obtain hu | ⟨t, b, hu, ht, hb, hbs⟩ := h.writeToken_of_leniently hu
    · obtain ⟨t, ht, -, hn, -⟩ := writeToken_eq_ok.1 hu
      obtain hw | ⟨b, he, hbs⟩ := ih (h.writeNote line hn) hw
      · exact .inl (bind_eq_ok.2 ⟨u, hu, hw⟩)
      · refine .inr ⟨b, bind_eq_error.2 (.inr ⟨u, hu, he⟩), ?_⟩
        rwa [(writeNote_events hn).1, List.append_assoc, ← tokenBrackets_cons ht] at hbs
    · refine .inr ⟨b, bind_eq_error.2 (.inl hu), ?_⟩
      rw [tokenBrackets_cons ht, hb, ← List.append_assoc]
      exact unmatched?_append hbs _

end Stave.HasBrackets

namespace Score

/-- A line that can be written leniently can be written, or stops at the first unmatched
bracket. -/
theorem step_of_leniently {s s' : Score α} {n : NumberedLine}
    (hs : s.document.Follows Stave.Slurred lines) (h : s.stepLeniently n = .ok s') :
    s.step n = .ok s' ∨ ∃ b, s.step n = .error (.fault (.unmatchedSlur b.line b.anchor.course)) ∧
      firstUnmatched? (lines ++ [n]) = some b := by
  obtain ⟨number, line⟩ := n
  cases line with
  | notes rhythm tokens =>
    obtain ⟨v, hv, h⟩ := bind_eq_ok.1 h
    obtain ⟨w, hw, h⟩ := bind_eq_ok.1 h
    have hv := staveFor_eq_ok.1 hv
    obtain ⟨bs, hbs, hfirst⟩ := firstUnmatched?_of_currentStave
      (n := ⟨number, .notes rhythm tokens⟩) hs hv rfl
    rw [step_of_currentStave rfl hv]
    obtain hw | ⟨b, he, hb⟩ := (hbs.writeRhythm rhythm).writeTokens_of_leniently hw
    · exact .inl (map_eq_ok.2 ⟨w.advance 1, bind_eq_ok.2 ⟨w, hw, rfl⟩, Except.ok.inj h⟩)
    · refine .inr ⟨b, map_eq_error.2 (bind_eq_error.2 (.inl he)), hfirst b ?_⟩
      rwa [(Stave.writeRhythm_events s.layout v rhythm).1] at hb
  | _ => exact .inl h

/-- Behind lines that were written, acceptable lines can be written too, or stop at the first
unmatched bracket. -/
theorem stepAll_of_leniently {s s' : Score α} {before lines : List NumberedLine}
    (hs : s.document.Follows Stave.Slurred before)
    (h : lines.foldlM stepLeniently s = .ok s') :
    s.stepAll lines = .ok s' ∨
      ∃ b, s.stepAll lines = .error (.fault (.unmatchedSlur b.line b.anchor.course)) ∧
        firstUnmatched? (before ++ lines) = some b := by
  induction lines generalizing s before with
  | nil => exact .inl h
  | cons n lines ih =>
    rw [List.foldlM_cons] at h
    obtain ⟨t, ht, h⟩ := bind_eq_ok.1 h
    rw [stepAll, List.foldlM_cons, List.append_cons]
    obtain ht | ⟨b, he, hb⟩ := step_of_leniently hs ht
    · obtain h | ⟨b, he, hb⟩ := ih (Stave.reading_slurred.wrote (wrote_of_step ht) hs) h
      · exact .inl (bind_eq_ok.2 ⟨t, ht, h⟩)
      · exact .inr ⟨b, bind_eq_error.2 (.inr ⟨t, ht, he⟩), hb⟩
    · exact .inr ⟨b, bind_eq_error.2 (.inl he), firstUnmatched?_append hb lines⟩

/-- A source with nothing wrong but its slurs stops at the first bracket that is unmatched. If
none is, it is a document. -/
theorem parse_of_acceptable {source : String} (h : Acceptable α (Line.tokenize source)) :
    (∀ b, firstUnmatched? (Line.tokenize source) = some b →
      (parse source : Except (Stop α) (Document α)) =
        .error (.fault (.unmatchedSlur b.line b.anchor.course))) ∧
    (firstUnmatched? (Line.tokenize source) = none → ∃ d : Document α, parse source = .ok d) := by
  obtain ⟨s, h⟩ := h
  have hnil : (empty : Score α).document.Follows Stave.Slurred [] := .nil
  obtain h | ⟨b, he, hb⟩ := stepAll_of_leniently hnil h
  · have hnone := firstUnmatched?_eq_none (Stave.reading_slurred.follows h)
    refine ⟨fun b hb => ?_, fun _ => ⟨s.finish, parse_eq_ok.2 ⟨s, h, rfl⟩⟩⟩
    rw [hnone] at hb
    cases hb
  · rw [List.nil_append] at hb
    refine ⟨fun c hc => ?_, fun hnone => ?_⟩
    · rw [hc] at hb
      cases hb
      rw [parse, he]
      rfl
    · rw [hnone] at hb
      cases hb

/-- On every stave of a document, each bracket that ends a slur stands directly behind one
that begins it, and the slurs join these two and no others; the slurs that the document leaves
open are those that the last brackets of its staves begin. Where nothing else is wrong with a
source, it stops at the first bracket that ends a slur and is the first of its stave or
directly behind another that ends one. -/
theorem slurs_of_parse (source : String) :
    (∀ d : Document α, parse source = .ok d →
      d.Follows Stave.Slurred (Line.tokenize source) ∧
      d.openSlurs = (List.zipWith (fun p ls => pendingSlurs p.number ls) d.pages
        (pageSections (Line.tokenize source))).flatten) ∧
    (Acceptable α (Line.tokenize source) →
      (∀ b, firstUnmatched? (Line.tokenize source) = some b →
        (parse source : Except (Stop α) (Document α)) =
          .error (.fault (.unmatchedSlur b.line b.anchor.course))) ∧
      (firstUnmatched? (Line.tokenize source) = none →
        ∃ d : Document α, parse source = .ok d)) := by
  refine ⟨fun d h => ?_, parse_of_acceptable⟩
  obtain ⟨s, hs, rfl⟩ := parse_eq_ok.1 h
  have h := (Stave.reading_slurred.follows hs).finish Stave.Slurred.justify
  exact ⟨h, Document.openSlurs_eq h⟩

/-- A document with a slur from one line to the next and two that never end, and a source that
stops at the second of two endings side by side, though its next stave begins with a third. -/
theorem slurs_two_staves :
    (∃ d : Document Float, parse "P-3\nS-\n1-[ 2-0\n1-] 2-[\nS-\n1-[" = .ok d ∧
      d.pages.flatMap (fun p => p.staves.map Stave.slurs) = [[(⟨0, 1⟩, ⟨1, 1⟩)], []] ∧
      d.openSlurs = [⟨3, 1, ⟨1, 2⟩⟩, ⟨3, 2, ⟨0, 1⟩⟩] ∧
      d.Follows Stave.Slurred (Line.tokenize "P-3\nS-\n1-[ 2-0\n1-] 2-[\nS-\n1-[")) ∧
    (parse "P-1\nS-\n1-[ 2-]\n3-]\nS-\n1-]" : Except (Stop Float) (Document Float)) =
      .error (.fault (.unmatchedSlur 4 3)) := by
  constructor
  · have h : ((parse "P-3\nS-\n1-[ 2-0\n1-] 2-[\nS-\n1-[").toOption.map fun d : Document Float =>
        (d.pages.flatMap fun p => p.staves.map Stave.slurs, d.openSlurs)) =
        some ([[(⟨0, 1⟩, ⟨1, 1⟩)], []], [⟨3, 1, ⟨1, 2⟩⟩, ⟨3, 2, ⟨0, 1⟩⟩]) := by
      decide +kernel
    obtain ⟨d, hd, hv⟩ := exists_of_toOption_map h
    obtain ⟨hslurs, hopen⟩ := Prod.mk.inj hv
    exact ⟨d, hd, hslurs, hopen, ((slurs_of_parse _).1 d hd).1⟩
  · have h : ((Line.tokenize "P-1\nS-\n1-[ 2-]\n3-]\nS-\n1-]").foldlM stepLeniently
        (empty : Score Float)).toOption.map (fun s => s.document.pages.length) = some 1 := by
      decide +kernel
    obtain ⟨s, hs, -⟩ := exists_of_toOption_map h
    have hb : firstUnmatched? (Line.tokenize "P-1\nS-\n1-[ 2-]\n3-]\nS-\n1-]") =
        some ⟨4, false, ⟨1, 3⟩⟩ := by
      decide +kernel
    exact ((slurs_of_parse _).2 ⟨s, hs⟩).1 _ hb

end Score

end Tablature
