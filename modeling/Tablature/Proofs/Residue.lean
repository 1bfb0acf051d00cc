import Tablature.Proofs.Accounting
import Tablature.Proofs.Growth

/-!
# What a faulty line leaves behind

A line that cannot be written changes nothing, with one exception: a note line
leaves its rhythm sign and the tokens before its fault on the current stave. The
cursor stays where it was, so that these share their slot with what comes next.

* `writeTokens_eq_error`: note tokens fail at the first that cannot be written;
* `Stave.Partly`: what a note line writes before its fault;
* `Score.Residue`, `residue_of_feed`: what is left of a score by a line that cannot be
  written.
-/

namespace Tablature

variable {α : Type} [Scalar α]

namespace Stave

/-- Note tokens that cannot all be written are written up to the first that cannot, which is the
one that is reported. -/
theorem writeTokens_eq_error {l : Layout α} {line : Nat} {tokens : List (List Char)}
    {v : Stave α} {e : Stop α} (h : tokens.foldlM (writeToken l line) v = .error e) :
    ∃ written faulty rest w, tokens = written ++ faulty :: rest ∧
      written.foldlM (writeToken l line) v = .ok w ∧ w.writeToken l line faulty = .error e := by
  have hrow : Work.outcome (tokens.forM (putToken l line)) v = .error e :=
    (Work.outcome_forM tokens _).trans h
  obtain ⟨written, faulty, rest, w, etokens, hw, hfault⟩ :=
    Work.run_forM_eq_error (Work.run_eq_error.2 ⟨hrow, rfl⟩)
  exact ⟨written, faulty, rest, w, etokens, hw, Work.outcome_of_run hfault⟩

/-- A note line is written on the stave up to its first token that cannot be written: the rhythm
sign, if it has one, and the tokens before. -/
structure Partly (l : Layout α) (line : Nat) (rhythm : Option Rhythm) (tokens : List (List Char))
    (f : Fault α) (v w : Stave α) : Prop where
  tokens : ∃ written faulty rest, tokens = written ++ faulty :: rest ∧
    written.foldlM (writeToken l line) (v.writeRhythm l rhythm) = .ok w ∧
    w.writeToken l line faulty = .error (.fault f)
  grown : v.Extends w
  cursor : w.cursor = v.cursor

/-- A note line that has a fault is stopped by one of its tokens, and that token has changed
nothing when it stops. -/
theorem partly_of_run {l : Layout α} {line : Nat} {rhythm : Option Rhythm} {tokens : String}
    {v w : Stave α} {f : Fault α}
    (h : (putNotes l line rhythm tokens).run v = .error (.fault f) w) :
    Partly l line rhythm (Text.words tokens.toList) f v w := by
  obtain h | ⟨_, u, hu, h⟩ := Work.run_bind_eq_error.1 h
  · have hrhythm := Work.outcome_of_run h
    rw [outcome_putRhythm] at hrhythm
    cases hrhythm
  rw [Work.run_eq_ok, outcome_putRhythm] at hu
  obtain rfl := Except.ok.inj hu
  obtain h | ⟨_, _, _, h⟩ := Work.run_bind_eq_error.1 h
  · obtain ⟨written, faulty, rest, u, e, hw, hf⟩ := Work.run_forM_eq_error h
    obtain rfl := spares_putToken l line faulty u f w hf
    exact
      { tokens := ⟨written, faulty, rest, e, hw, Work.outcome_of_run hf⟩
        grown := Acts.extends ((acts_writeRhythm l v rhythm).trans (acts_writeTokens hw))
        cursor := (writeTokens_events hw).1.trans (writeRhythm_events l v rhythm).1 }
  · cases h

end Stave

namespace Score

/-- What a line that cannot be written leaves of a score. -/
inductive Residue (s : Score α) (n : NumberedLine) (f : Fault α) : Score α → Prop where
  | offStave : (∀ rhythm tokens, n.line ≠ .notes rhythm tokens) → Residue s n f s
  | noStave : s.document.currentStave? = none → Residue s n f s
  /-- Part of a note line, on the last stave `v` of the last page `p`. -/
  | notes {rhythm : Option Rhythm} {tokens : String} {ps : List (Page α)} {p : Page α}
      {vs : List (Stave α)} {v w : Stave α} : n.line = .notes rhythm tokens →
    s.document.pages = ps ++ [p] → p.staves = vs ++ [v] →
    v.Partly s.layout n.number rhythm (Text.words tokens.toList) f w →
    Residue s n f ⟨s.layout, ⟨ps ++ [{ p with staves := vs ++ [w] }]⟩⟩

omit [Scalar α] in
theorem setStave_eq {s : Score α} {ps : List (Page α)} {p : Page α} {vs : List (Stave α)}
    {v : Stave α} (hps : s.document.pages = ps ++ [p]) (hvs : p.staves = vs ++ [v])
    (w : Stave α) : s.setStave w = ⟨s.layout, ⟨ps ++ [{ p with staves := vs ++ [w] }]⟩⟩ := by
  simp [setStave, Document.setCurrentStave, Document.currentPage?, Document.setCurrentPage,
    Page.setCurrentStave, hps, hvs]

theorem residue_of_notes {s : Score α} {n : NumberedLine} {rhythm : Option Rhythm}
    {tokens : String} (hn : n.line = .notes rhythm tokens) {f : Fault α}
    (h : s.step n = .error (.fault f)) : s.Residue n f (s.feed n).1 := by
  rw [feed, after_put_notes hn]
  cases hv : s.document.currentStave? with
  | none => exact .noStave hv
  | some v =>
    obtain ⟨p, hp, hv'⟩ := Option.bind_eq_some_iff.1 hv
    obtain ⟨ps, hps⟩ := List.getLast?_eq_some_iff.1 hp
    obtain ⟨vs, hvs⟩ := List.getLast?_eq_some_iff.1 hv'
    have hnotes : v.writeNotes s.layout n.number rhythm tokens = .error (.fault f) := by
      rw [step_of_currentStave (by rw [hn]; rfl) hv, Stave.writeLine, hn] at h
      exact map_eq_error.1 h
    rw [← Stave.outcome_putNotes] at hnotes
    rw [Option.elim_some, setStave_eq hps hvs]
    exact .notes hn hps hvs (Stave.partly_of_run (Work.run_eq_error.2 ⟨hnotes, rfl⟩))

/-- A line with a fault leaves the score as it was; but a note line on a stave leaves its rhythm
sign and the tokens before the first that cannot be written, and the cursor where it was. -/
theorem residue_of_feed {s : Score α} {n : NumberedLine} {f : Fault α}
    (h : (s.feed n).2 = some (.fault f)) : s.Residue n f (s.feed n).1 := by
  have hstep : s.step n = .error (.fault f) := feed_snd_eq_some.1 h
  by_cases hn : ∃ rhythm tokens, n.line = .notes rhythm tokens
  · obtain ⟨rhythm, tokens, hn⟩ := hn
    exact residue_of_notes hn hstep
  · have hother (rhythm : Option Rhythm) (tokens : String) : n.line ≠ .notes rhythm tokens :=
      fun e => hn ⟨rhythm, tokens, e⟩
    rw [feed_of_error hother hstep]
    exact .offStave hother

/-- Two tokens of a note line, one of which begins a slur, before a course that the stave does not
have. -/
theorem residue_open_slur :
    let s : Score Rat := empty.feedAll (Line.tokenize "P-1\nS-\nC 1-0")
    let n : NumberedLine := ⟨4, .notes (some ⟨.minim, true⟩) "1-0 2-[ 9-9 3-1"⟩
    (s.feed n).2 = some (.fault (.courseOutOfRange 4 9 5)) ∧
      (s.feed n).1.document.currentStave?.map (fun v =>
        (v.cursor, v.openSlur, v.glyphs.map fun g => g.mark.slot)) =
        some (1, some ⟨1, 2⟩, [0, 0, 1, 1]) ∧
      s.Residue n (.courseOutOfRange 4 9 5) (s.feed n).1 := by
  have h : ((empty.feedAll (Line.tokenize "P-1\nS-\nC 1-0") : Score Rat).feed
      ⟨4, .notes (some ⟨.minim, true⟩) "1-0 2-[ 9-9 3-1"⟩).2 =
        some (.fault (.courseOutOfRange 4 9 5)) := by
    decide +kernel
  exact ⟨h, by decide +kernel, residue_of_feed h⟩

end Score

end Tablature
