import Tablature.Proofs.Refused
import Tablature.Proofs.Residue
import Tablature.Proofs.WellFormed

/-!
# Note lines

The tokens of a note line are written one after the other. Whether one can be written
depends on its text, on the courses of the stave, and on those before it in one way
only: they may have begun a slur or ended one.

* `NoteToken.IsWritten`, `MalformedNote`: the tokens that can be read and those that
  cannot;
* `TokenStop`, `writeToken_eq_error_iff`: what stops a token;
* `slurAfter`: whether a slur is open behind a token;
* `FirstStop`, `writeTokens_eq_error_iff`: tokens stop at the first that is stopped;
* `Score.NoteStop`, `feed_notes`: what stops a note line, and what one writes that nothing
  stops;
* `exists_note_uncounted`: a note with which nothing is wrong, and which is stopped.
-/

namespace Tablature

/-! ## Reading a token -/

/-- The text of a sign; that of a fret is the fret. -/
def NoteSign.text : NoteSign → String
  | .fret text => text
  | .semicircle .over => "\x7b"
  | .semicircle .under => "\x7d"
  | .slurBegin => "["
  | .slurEnd => "]"

theorem NoteSign.text_ofText (text : String) : (ofText text).text = text := by
  unfold ofText
  split_ifs with h₁ h₂ h₃ h₄
  · exact h₁.symm
  · exact h₂.symm
  · exact h₃.symm
  · exact h₄.symm
  · rfl

/-- The token is the course in digits, a dash, and the text of the sign, further dashes included.
The four brackets are signs of their own, and no frets. -/
structure NoteToken.IsWritten (t : NoteToken) (token : List Char) : Prop where
  text : ∃ number, '-' ∉ number ∧ Numeral.Writes Count.max number t.course ∧
    token = number ++ '-' :: t.sign.text.toList
  nonempty : t.sign.text ≠ ""
  sign : t.sign = .ofText t.sign.text

/-- The tokens that cannot be read. -/
inductive MalformedNote (token : List Char) : Prop where
  | noDash : '-' ∉ token → MalformedNote token
  | noCourse {number sign : List Char} : '-' ∉ number → token = number ++ '-' :: sign →
    (∀ n, ¬ Numeral.Writes Count.max number n) → MalformedNote token
  | noSign {number : List Char} : '-' ∉ number → token = number ++ ['-'] → MalformedNote token

theorem Text.cut?_eq_none_iff {d : Char} {cs : List Char} : cut? d cs = none ↔ d ∉ cs := by
  induction cs with
  | nil => simp [cut?]
  | cons c cs ih =>
    unfold cut?
    split
    · rename_i h
      simp [h]
    · rename_i h
      rw [Option.map_eq_none_iff, ih, List.mem_cons, not_or]
      exact ⟨fun hcs => ⟨Ne.symm h, hcs⟩, And.right⟩

/-- Where a sign begins is settled by the first dash. -/
theorem NoteToken.read?_append {number : List Char} (h : '-' ∉ number) (sign : List Char) :
    read? (number ++ '-' :: sign) = (Numeral.count? Count.max number).bind fun course =>
      if sign.isEmpty then none else some ⟨course, .ofText (String.ofList sign)⟩ := by
  simp only [read?, Text.cut?_append h]
  rfl

theorem NoteToken.read?_eq_some_iff {token : List Char} {t : NoteToken} :
    read? token = some t ↔ t.IsWritten token := by
  constructor
  · intro h
    obtain ⟨⟨number, sign⟩, hcut, -⟩ := Option.bind_eq_some_iff.1 h
    obtain ⟨hnumber, rfl⟩ := Text.cut?_eq_some_iff.1 hcut
    rw [read?_append hnumber] at h
    obtain ⟨course, hcourse, h⟩ := Option.bind_eq_some_iff.1 h
    split at h
    · cases h
    · rename_i hsign
      cases h
      refine ⟨⟨number, hnumber, Numeral.count?_eq_some_iff.1 hcourse, ?_⟩, ?_, ?_⟩
      · rw [NoteSign.text_ofText, String.toList_ofList]
      · rw [NoteSign.text_ofText]
        simpa using hsign
      · rw [NoteSign.text_ofText]
  · rintro ⟨⟨number, hnumber, hcourse, rfl⟩, hsign, e⟩
    rw [read?_append hnumber, Numeral.count?_eq_some_iff.2 hcourse]
    simp [hsign, ← e]

theorem NoteToken.read?_eq_none_iff {token : List Char} :
    read? token = none ↔ MalformedNote token := by
  constructor
  · intro h
    by_cases hdash : '-' ∈ token
    · obtain ⟨number, sign, rfl, hnumber⟩ := List.eq_append_cons_of_mem hdash
      rw [read?_append hnumber] at h
      cases hcourse : Numeral.count? Count.max number with
      | none => exact .noCourse hnumber rfl (Numeral.count?_eq_none_iff.1 hcourse)
      | some course =>
        obtain rfl : sign = [] := by simpa [hcourse] using h
        exact .noSign hnumber rfl
    · exact .noDash hdash
  · intro h
    cases h with
    | noDash h => simp [read?, Text.cut?_eq_none_iff.2 h]
    | noCourse hnumber e hcourse =>
      rw [e, read?_append hnumber, Numeral.count?_eq_none_iff.2 hcourse]
      rfl
    | noSign hnumber e =>
      rw [e, read?_append hnumber]
      cases Numeral.count? Count.max _ <;> rfl

/-- The end of a slur is a closing bracket behind the first dash. -/
theorem NoteToken.isWritten_slurEnd_iff {token : List Char} {course : Nat} :
    IsWritten ⟨course, .slurEnd⟩ token ↔
      ∃ number, '-' ∉ number ∧ Numeral.Writes Count.max number course ∧
        token = number ++ ['-', ']'] := by
  have htext : NoteSign.slurEnd.text.toList = [']'] := by decide
  constructor
  · rintro ⟨h, -, -⟩
    simpa only [htext] using h
  · intro h
    have hne : NoteSign.slurEnd.text ≠ "" := by decide
    have hsign : NoteSign.slurEnd = .ofText NoteSign.slurEnd.text := by decide
    exact ⟨by simpa only [htext] using h, hne, hsign⟩

theorem forall₂_isWritten_of_mapM {tokens : List (List Char)} {ts : List NoteToken}
    (h : tokens.mapM NoteToken.read? = some ts) : List.Forall₂ NoteToken.IsWritten ts tokens := by
  induction tokens generalizing ts with
  | nil => cases h; exact .nil
  | cons token tokens ih =>
    rw [List.mapM_cons] at h
    obtain ⟨t, ht, h⟩ := Option.bind_eq_some_iff.1 h
    obtain ⟨us, hus, h⟩ := Option.bind_eq_some_iff.1 h
    cases h
    exact .cons (NoteToken.read?_eq_some_iff.1 ht) (ih hus)

/-! ## Writing a token -/

variable {α : Type}

/-- What stops a token of a note line, on a stave with so many courses, whose lines can be counted or
not, and where a slur is open or not. Of several things the first is given, in the order in which
they are listed. -/
inductive TokenStop (line courses : Nat) (isCountable isOpen : Bool) (token : List Char) :
    Stop α → Prop where
  /-- It cannot be read. -/
  | malformed : MalformedNote token → TokenStop line courses isCountable isOpen token
    (.fault (.malformedNote line (String.ofList token)))
  /-- The stave has not the course that it names. -/
  | outOfRange {t : NoteToken} : t.IsWritten token → ¬ (1 ≤ t.course ∧ t.course ≤ courses) →
    TokenStop line courses isCountable isOpen token
      (.fault (.courseOutOfRange line t.course courses))
  /-- It ends a slur, and none is open. -/
  | unmatched {number : List Char} {course : Nat} : '-' ∉ number →
    Numeral.Writes Count.max number course → token = number ++ ['-', ']'] →
    1 ≤ course ∧ course ≤ courses → isOpen = false →
    TokenStop line courses isCountable isOpen token (.fault (.unmatchedSlur line course))
  /-- Nothing is wrong with it, but it stands on a line that cannot be counted. The beginning of a
  slur does not stand on a line before its end. -/
  | uncounted {t : NoteToken} : t.IsWritten token → 1 ≤ t.course ∧ t.course ≤ courses →
    t.sign ≠ .slurBegin → (t.sign = .slurEnd → isOpen = true) → isCountable = false →
    TokenStop line courses isCountable isOpen token .overflow

/-- Whether a slur is open behind a token, as it is before. -/
def slurAfter (isOpen : Bool) (token : List Char) : Bool :=
  match (NoteToken.read? token).map NoteToken.sign with
  | some .slurBegin => true
  | some .slurEnd => false
  | _ => isOpen

/-- What stops the first token of a row that is stopped, each of them as it is its turn: the slurs
that those before it begin and end count. -/
def FirstStop (line courses : Nat) (isCountable isOpen : Bool) (tokens : List (List Char))
    (e : Stop α) : Prop :=
  ∃ before token after, tokens = before ++ token :: after ∧
    (∀ b t a, before = b ++ t :: a →
      ∀ e : Stop α, ¬ TokenStop line courses isCountable (b.foldl slurAfter isOpen) t e) ∧
    TokenStop line courses isCountable (before.foldl slurAfter isOpen) token e

section

variable {line courses : Nat} {isCountable isOpen : Bool} {token : List Char} {e : Stop α}

theorem tokenStop_iff_of_malformed (h : NoteToken.read? token = none) :
    TokenStop line courses isCountable isOpen token e ↔
      e = .fault (.malformedNote line (String.ofList token)) := by
  have hmalformed := NoteToken.read?_eq_none_iff.1 h
  have hread {t : NoteToken} (ht : t.IsWritten token) : False := by
    rw [← NoteToken.read?_eq_some_iff, h] at ht
    cases ht
  constructor
  · intro he
    cases he with
    | malformed _ => rfl
    | outOfRange ht _ => exact (hread ht).elim
    | unmatched hnumber hcourse e _ _ =>
      exact (hread (NoteToken.isWritten_slurEnd_iff.2 ⟨_, hnumber, hcourse, e⟩)).elim
    | uncounted ht _ _ _ _ => exact (hread ht).elim
  · rintro rfl
    exact .malformed hmalformed

theorem tokenStop_iff_of_read {t : NoteToken} (h : NoteToken.read? token = some t) :
    TokenStop line courses isCountable isOpen token e ↔
      (¬ (1 ≤ t.course ∧ t.course ≤ courses) ∧
        e = .fault (.courseOutOfRange line t.course courses)) ∨
      ((1 ≤ t.course ∧ t.course ≤ courses) ∧ t.sign = .slurEnd ∧ isOpen = false ∧
        e = .fault (.unmatchedSlur line t.course)) ∨
      ((1 ≤ t.course ∧ t.course ≤ courses) ∧ ¬ (t.sign = .slurEnd ∧ isOpen = false) ∧
        ¬ (t.sign = .slurBegin ∨ isCountable) ∧ e = .overflow) := by
  have hunique {u : NoteToken} (hu : u.IsWritten token) : u = t := by
    rw [← NoteToken.read?_eq_some_iff, h] at hu
    exact (Option.some.inj hu).symm
  constructor
  · intro he
    cases he with
    | malformed hmalformed =>
      rw [NoteToken.read?_eq_none_iff.2 hmalformed] at h
      cases h
    | outOfRange hu hrange =>
      obtain rfl := hunique hu
      exact .inl ⟨hrange, rfl⟩
    | unmatched hnumber hcourse e hrange hopen =>
      obtain rfl := hunique (NoteToken.isWritten_slurEnd_iff.2 ⟨_, hnumber, hcourse, e⟩)
      exact .inr (.inl ⟨hrange, rfl, hopen, rfl⟩)
    | uncounted hu hrange hbegin hend hcount =>
      obtain rfl := hunique hu
      exact .inr (.inr ⟨hrange, by grind, by simp [hbegin, hcount], rfl⟩)
  · have hwritten := NoteToken.read?_eq_some_iff.1 h
    rintro (⟨hrange, rfl⟩ | ⟨hrange, hsign, hopen, rfl⟩ | ⟨hrange, hend, hcount, rfl⟩)
    · exact .outOfRange hwritten hrange
    · obtain ⟨course, _⟩ := t
      obtain rfl := hsign
      obtain ⟨number, hnumber, hcourse, e⟩ := NoteToken.isWritten_slurEnd_iff.1 hwritten
      exact .unmatched hnumber hcourse e hrange hopen
    · obtain ⟨hbegin, hcount⟩ := not_or.1 hcount
      exact .uncounted hwritten hrange hbegin (by grind) (by simpa using hcount)

/-- The first token is stopped, or it is not and the first that is is among those behind it. -/
theorem firstStop_cons {tokens : List (List Char)} :
    FirstStop line courses isCountable isOpen (token :: tokens) e ↔
      TokenStop line courses isCountable isOpen token e ∨
      (∀ e : Stop α, ¬ TokenStop line courses isCountable isOpen token e) ∧
        FirstStop line courses isCountable (slurAfter isOpen token) tokens e := by
  constructor
  · rintro ⟨before, t, after, e, hbefore, hf⟩
    cases before with
    | nil =>
      cases e
      exact .inl hf
    | cons x before =>
      cases e
      refine .inr ⟨hbefore [] token before rfl, before, t, after, rfl, fun b u a e => ?_, hf⟩
      exact hbefore (token :: b) u a (by rw [e, List.cons_append])
  · rintro (hf | ⟨hfirst, before, t, after, rfl, hbefore, hf⟩)
    · exact ⟨[], token, tokens, rfl, by simp, hf⟩
    · refine ⟨token :: before, t, after, rfl, fun b u a e => ?_, hf⟩
      cases b with
      | nil =>
        cases e
        exact hfirst
      | cons x b =>
        cases e
        exact hbefore b u a rfl

end

/-- What stops a note line in a score: there is no page, there is no stave on the last one, or one of
the tokens is stopped. -/
inductive Score.NoteStop (s : Score α) (line : Nat) (tokens : List (List Char)) :
    Stop α → Prop where
  | noPage : s.document.pages = [] → NoteStop s line tokens (.fault (.noPage line "note"))
  | noStave {p : Page α} : s.document.pages.getLast? = some p → p.staves = [] →
    NoteStop s line tokens (.fault (.noStave line "note"))
  | token {p : Page α} {v : Stave α} {e : Stop α} : s.document.pages.getLast? = some p →
    p.staves.getLast? = some v →
    FirstStop line v.courses v.isCountable v.openSlur.isSome tokens e → NoteStop s line tokens e

/-- What a note line that nothing stops makes of a score. It writes on the current stave,
and goes on by one slot: its rhythm sign, if it has one, and then what its tokens say, each a course
and everything behind the first dash. -/
def Score.WritesNotes (s : Score α) (rhythm : Option Rhythm) (tokens : List (List Char))
    (s' : Score α) : Prop :=
  ∃ (v w : Stave α) (ts : List NoteToken), s.document.currentStave? = some v ∧ s' = s.setStave w ∧
    List.Forall₂ NoteToken.IsWritten ts tokens ∧ v.Extends w ∧ w.cursor = v.cursor + 1 ∧
    w.openSlur.isSome = tokens.foldl slurAfter v.openSlur.isSome ∧
    w.events = v.events ++ rhythm.toList.map (fun r => .mark (.tick v.cursor r)) ++
      ts.flatMap (NoteToken.events v.cursor)

variable [Scalar α]

namespace Stave

variable {l : Layout α} {line : Nat} {v w : Stave α} {token : List Char} {e : Stop α}

theorem writeNote?_eq_none_iff {t : NoteToken} :
    v.writeNote? l t = none ↔ t.sign = .slurEnd ∧ v.openSlur.isSome = false := by
  obtain ⟨course, sign⟩ := t
  cases sign with
  | slurEnd => simp [writeNote?, endSlur?]
  | _ => simp [writeNote?]

/-- A token cannot be written if and only if something stops it, and that is reported. -/
theorem writeToken_eq_error_iff :
    v.writeToken l line token = .error e ↔
      TokenStop line v.courses v.isCountable v.openSlur.isSome token e := by
  rw [writeToken_eq]
  cases ht : NoteToken.read? token with
  | none =>
    rw [tokenStop_iff_of_malformed ht]
    simp [eq_comm]
  | some t =>
    rw [tokenStop_iff_of_read ht, ← Grid.hasCourse_iff, ← and_assoc (a := t.sign = .slurEnd),
      ← writeNote?_eq_none_iff (l := l)]
    have herror (e' : Stop α) : (Except.error e' : Except _ (Stave α)) = .error e ↔ e = e' := by
      rw [Except.error.injEq, eq_comm]
    by_cases hcourse : v.hasCourse t.course = true
    · cases hw : v.writeNote? l t with
      | none => simp only [hcourse, hw, if_true, herror]; simp
      | some w =>
        by_cases hcount : t.sign = .slurBegin ∨ v.isCountable = true
        · simp [hcourse, hw, hcount]
        · simp only [hcourse, hw, hcount, if_true, if_false, herror]; simp
    · simp only [hcourse, Bool.false_eq_true, if_false, herror]; simp

/-- A token that is written leaves the grid and the cursor alone, and of the open slur it settles
what follows. -/
theorem openSlur_of_writeToken (h : v.writeToken l line token = .ok w) :
    w.toGrid = v.toGrid ∧ w.cursor = v.cursor ∧
      w.openSlur.isSome = slurAfter v.openSlur.isSome token := by
  refine ⟨(act_writeToken h).toGrid_eq, ?_⟩
  obtain ⟨⟨course, sign⟩, ht, -, hw, -⟩ := writeToken_eq_ok.1 h
  simp only [slurAfter, ht, Option.map_some]
  cases sign with
  | slurEnd =>
    obtain ⟨start, -, rfl⟩ := Option.map_eq_some_iff.1 hw
    exact ⟨rfl, rfl⟩
  | _ => cases hw; exact ⟨rfl, rfl⟩

/-- Tokens cannot all be written if and only if one of them is stopped, and what stops the first is
reported. -/
theorem writeTokens_eq_error_iff {tokens : List (List Char)} :
    tokens.foldlM (writeToken l line) v = .error e ↔
      FirstStop line v.courses v.isCountable v.openSlur.isSome tokens e := by
  induction tokens generalizing v with
  | nil => simp [FirstStop, pure, Except.pure]
  | cons token tokens ih =>
    rw [List.foldlM_cons, bind_eq_error, writeToken_eq_error_iff, firstStop_cons]
    refine or_congr_right ⟨?_, ?_⟩
    · rintro ⟨u, hu, h⟩
      obtain ⟨hgrid, -, hopen⟩ := openSlur_of_writeToken hu
      refine ⟨fun e he => ?_, ?_⟩
      · rw [← writeToken_eq_error_iff (l := l), hu] at he
        cases he
      · rw [← hgrid, ← hopen]
        exact ih.1 h
    · rintro ⟨hfine, h⟩
      cases hu : v.writeToken l line token with
      | error e => exact absurd (writeToken_eq_error_iff.1 hu) (hfine e)
      | ok u =>
        obtain ⟨hgrid, -, hopen⟩ := openSlur_of_writeToken hu
        rw [← hgrid, ← hopen] at h
        exact ⟨u, rfl, ih.2 h⟩

theorem openSlur_of_writeTokens {tokens : List (List Char)}
    (h : tokens.foldlM (writeToken l line) v = .ok w) :
    w.openSlur.isSome = tokens.foldl slurAfter v.openSlur.isSome := by
  induction tokens generalizing v with
  | nil => cases h; rfl
  | cons token tokens ih =>
    rw [List.foldlM_cons] at h
    obtain ⟨u, hu, h⟩ := bind_eq_ok.1 h
    rw [ih h, List.foldl_cons, (openSlur_of_writeToken hu).2.2]

/-- A rhythm sign changes neither the grid nor the open slur. -/
theorem openSlur_writeRhythm (l : Layout α) (v : Stave α) (rhythm : Option Rhythm) :
    (v.writeRhythm l rhythm).toGrid = v.toGrid ∧
      (v.writeRhythm l rhythm).openSlur = v.openSlur := by
  cases rhythm <;> exact ⟨rfl, rfl⟩

end Stave

namespace Score

omit [Scalar α] in
theorem staveFor_eq_ok_iff {s : Score α} {n : NumberedLine} {v : Stave α} :
    s.staveFor n = .ok v ↔
      ∃ p, s.document.pages.getLast? = some p ∧ p.staves.getLast? = some v := by
  rw [staveFor_eq_ok, Document.currentStave?, Option.bind_eq_some_iff]
  rfl

theorem noteStop_iff_of_step {s : Score α} {line : Nat} {rhythm : Option Rhythm} {tokens : String}
    {e : Stop α} : s.step ⟨line, .notes rhythm tokens⟩ = .error e ↔
      s.NoteStop line (Text.words tokens.toList) e := by
  have hnotes (v : Stave α) : v.writeNotes s.layout line rhythm tokens = .error e ↔
      FirstStop line v.courses v.isCountable v.openSlur.isSome (Text.words tokens.toList) e := by
    obtain ⟨hgrid, hopen⟩ := Stave.openSlur_writeRhythm s.layout v rhythm
    rw [← hgrid, ← hopen, ← Stave.writeTokens_eq_error_iff (l := s.layout), Stave.writeNotes,
      bind_eq_error]
    simp [pure, Except.pure]
  have hstep : s.step ⟨line, .notes rhythm tokens⟩ = .error e ↔
      s.staveFor ⟨line, .notes rhythm tokens⟩ = .error e ∨
      ∃ v, s.staveFor ⟨line, .notes rhythm tokens⟩ = .ok v ∧
        FirstStop line v.courses v.isCountable v.openSlur.isSome (Text.words tokens.toList) e := by
    rw [step_eq, bind_eq_error]
    simp only [map_eq_error, ← hnotes]
    rfl
  rw [hstep, staveFor_eq_error_iff]
  constructor
  · rintro ((⟨hpages, rfl⟩ | ⟨p, hp, hstaves, rfl⟩) | ⟨v, hv, hf⟩)
    · exact .noPage hpages
    · exact .noStave hp hstaves
    · obtain ⟨p, hp, hv⟩ := staveFor_eq_ok_iff.1 hv
      exact .token hp hv hf
  · intro h
    cases h with
    | noPage hpages => exact .inl (.inl ⟨hpages, rfl⟩)
    | noStave hp hstaves => exact .inl (.inr ⟨_, hp, hstaves, rfl⟩)
    | token hp hv hf => exact .inr ⟨_, staveFor_eq_ok_iff.2 ⟨_, hp, hv⟩, hf⟩

theorem writesNotes_of_step {s s' : Score α} {line : Nat} {rhythm : Option Rhythm} {tokens : String}
    (h : s.step ⟨line, .notes rhythm tokens⟩ = .ok s') :
    s.WritesNotes rhythm (Text.words tokens.toList) s' := by
  rw [step_eq] at h
  obtain ⟨v, hv, h⟩ := bind_eq_ok.1 h
  obtain ⟨u, hu, rfl⟩ := map_eq_ok.1 h
  obtain ⟨w, hw, hw'⟩ := bind_eq_ok.1 hu
  cases hw'
  obtain ⟨hcursor, ts, hread, hevents⟩ := Stave.writeTokens_events hw
  obtain ⟨hrhythm, erhythm⟩ := Stave.writeRhythm_events s.layout v rhythm
  have hopen := Stave.openSlur_of_writeTokens hw
  have hacts : Stave.Acts s.layout v w :=
    (Stave.acts_writeRhythm s.layout v rhythm).trans (Stave.acts_writeTokens hw)
  refine ⟨v, w.advance 1, ts, staveFor_eq_ok.1 hv, rfl, forall₂_isWritten_of_mapM hread,
    Stave.Acts.extends (hacts.tail (.advance 1)), ?_, ?_, ?_⟩
  · rw [← hrhythm, ← hcursor]
    rfl
  · rw [← (Stave.openSlur_writeRhythm s.layout v rhythm).2]
    exact hopen
  · rw [← erhythm, ← hrhythm]
    exact hevents

/-- Whether a note line can be written, and what it writes: one that cannot is stopped by one of the
things that are listed, which is reported, and any other is written as a whole. -/
theorem feed_notes (s : Score α) (line : Nat) (rhythm : Option Rhythm) (tokens : String) :
    (∀ e, (s.feed ⟨line, .notes rhythm tokens⟩).2 = some e ↔
      s.NoteStop line (Text.words tokens.toList) e) ∧
    ((s.feed ⟨line, .notes rhythm tokens⟩).2 = none →
      s.WritesNotes rhythm (Text.words tokens.toList) (s.feed ⟨line, .notes rhythm tokens⟩).1) := by
  refine ⟨fun e => feed_snd_eq_some.trans noteStop_iff_of_step, fun h => ?_⟩
  cases hs : s.step ⟨line, .notes rhythm tokens⟩ with
  | ok s' => rw [feed_of_ok hs]; exact writesNotes_of_step hs
  | error e => rw [feed_snd_eq_some.2 hs] at h; cases h

/-- Behind a line that begins a slur: a line that ends it, begins another and ends that, with dashes
in a fret; and one that ends two. -/
theorem feed_notes_behind_slur :
    let s : Score Rat := empty.feedAll (Line.tokenize "P-1\nS-\n1-[")
    (s.feed ⟨4, .notes none "1-] 2-[ +02-a-b 2-]"⟩).2 = none ∧
      s.WritesNotes none (Text.words "1-] 2-[ +02-a-b 2-]".toList)
        (s.feed ⟨4, .notes none "1-] 2-[ +02-a-b 2-]"⟩).1 ∧
      s.NoteStop 4 (Text.words "1-] 2-] 9-0".toList) (.fault (.unmatchedSlur 4 2)) := by
  intro s
  have hwritten : (s.feed ⟨4, .notes none "1-] 2-[ +02-a-b 2-]"⟩).2 = none := by decide +kernel
  have hfault : (s.feed ⟨4, .notes none "1-] 2-] 9-0"⟩).2 = some (.fault (.unmatchedSlur 4 2)) := by
    decide +kernel
  exact ⟨hwritten, (feed_notes s 4 none "1-] 2-[ +02-a-b 2-]").2 hwritten,
    ((feed_notes s 4 none "1-] 2-] 9-0").1 _).1 hfault⟩

/-- A note that can be read, on a course of its stave, which yet cannot be written: the lines of a
french stave with so many courses cannot be counted. -/
theorem exists_note_uncounted : ∃ (s : Score Rat) (v : Stave Rat) (t : NoteToken),
    s = empty.feedAll
        (Line.tokenize "FRENCH\nNUMBEROFCOURSES 18446744073709551615\nP-1\nS-") ∧
      s.document.currentStave? = some v ∧ t.IsWritten "1-0".toList ∧
      (1 ≤ t.course ∧ t.course ≤ v.courses) ∧ t.sign = .fret "0" ∧
      (s.feed ⟨5, .notes none "1-0"⟩).2 = some .overflow := by
  have h : ((empty : Score Rat).feedAll
      (Line.tokenize "FRENCH\nNUMBEROFCOURSES 18446744073709551615\nP-1\nS-")).document.currentStave?.map
        (·.courses) = some Count.max := by
    decide +kernel
  obtain ⟨v, hv, hcourses⟩ := Option.map_eq_some_iff.1 h
  have hread : NoteToken.read? "1-0".toList = some ⟨1, .fret "0"⟩ := by decide +kernel
  exact ⟨_, v, ⟨1, .fret "0"⟩, rfl, hv, NoteToken.read?_eq_some_iff.1 hread,
    ⟨Nat.le_refl 1, hcourses ▸ by decide⟩, rfl, by decide +kernel⟩

end Score

end Tablature
