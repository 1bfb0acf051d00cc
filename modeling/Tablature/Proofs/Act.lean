import Mathlib.Logic.Relation
import Tablature.Proofs.InPlace
import Tablature.Score

/-!
# Acts of writing

What a line does to the stave it stands on (`Stave.writeLine`), and the four
acts that every line is made of (`Stave.Act`): writing a mark, going on to a
later slot, beginning a slur, ending a slur. Work that is stopped may besides have
forgotten where a slur began. A property of staves that the acts keep is kept by
every line:

* `writeToken_eq`: a note token, by what stops it;
* `acts_writeLine`: a line that can be written is a run of acts;
* `acts_putNotes`: so is what a note line leaves behind, wherever it is stopped.
-/

namespace Tablature

theorem bind_eq_ok {ε β γ : Type} {x : Except ε β} {f : β → Except ε γ} {c : γ} :
    x >>= f = .ok c ↔ ∃ b, x = .ok b ∧ f b = .ok c := by
  cases x <;> simp [bind, Except.bind]

theorem bind_eq_error {ε β γ : Type} {x : Except ε β} {f : β → Except ε γ} {e : ε} :
    x >>= f = .error e ↔ x = .error e ∨ ∃ b, x = .ok b ∧ f b = .error e := by
  cases x <;> simp [bind, Except.bind]

theorem map_eq_ok {ε β γ : Type} {x : Except ε β} {f : β → γ} {c : γ} :
    x.map f = .ok c ↔ ∃ b, x = .ok b ∧ f b = c := by
  cases x <;> simp [Except.map]

theorem map_eq_error {ε β γ : Type} {x : Except ε β} {f : β → γ} {e : ε} :
    x.map f = .error e ↔ x = .error e := by
  cases x <;> simp [Except.map]

theorem toOption_eq_some {ε β : Type} {x : Except ε β} {b : β} :
    x.toOption = some b ↔ x = .ok b := by
  cases x <;> simp [Except.toOption]

/-- What can be computed of a result shows that there is one. -/
theorem exists_of_toOption_map {ε β γ : Type} {x : Except ε β} {f : β → γ} {c : γ}
    (h : x.toOption.map f = some c) : ∃ b, x = .ok b ∧ f b = c := by
  obtain ⟨b, hb, rfl⟩ := Option.map_eq_some_iff.1 h
  exact ⟨b, toOption_eq_some.1 hb, rfl⟩

variable {α : Type}

/-- The marks that a line may write on a stave as it stands: at the cursor, or at the slot
before it, and on courses that the stave has. A slur is not written this way, but by ending
the one that is open. -/
def Mark.Fits (v : Stave α) : Mark → Prop
  | .note slot course _ | .semicircle _ slot course => slot = v.cursor ∧ v.hasCourse course
  | .barberpole slot range =>
    slot = v.cursor ∧ ∀ ends ∈ range, v.hasCourse ends.1 ∧ v.hasCourse ends.2
  | .tick slot _ | .barline _ slot _ | .timeSignature slot _ | .alfabeto slot _ => slot = v.cursor
  | .strum slot _ | .sectionSign slot => slot = v.cursor - 1
  | .slur _ _ => False

namespace Grid

/-- The lines of an italian stave can be counted, and those of a french one unless it has as many
courses as can be counted at most. -/
theorem isCountable_iff {g : Grid α} :
    g.isCountable = true ↔ (g.orientation = .french → g.courses < Count.max) :=
  Orientation.isSome_linePosition?

/-- The lines that a mark stands on can be counted if all lines can. -/
theorem counts_eq (g : Grid α) (m : Mark) :
    g.counts m = ((m.courses g.courses).isEmpty || g.isCountable) := by
  have hcourse (course : Nat) :
      (g.orientation.linePosition? course g.courses).isSome = g.isCountable := by
    rw [Bool.eq_iff_iff, isCountable_iff, Orientation.isSome_linePosition?]
  unfold counts
  simp only [hcourse]
  cases m.courses g.courses <;> cases g.isCountable <;> simp

end Grid

namespace Stave

theorem checkCourse_eq_ok {v : Stave α} {line course : Nat} {u : Unit} :
    v.checkCourse line course = .ok u ↔ v.hasCourse course := by
  simp only [checkCourse]
  split <;> simp_all

/-- The range of a barberpole that can be written lies on the stave. -/
theorem hasCourse_of_barberpoleRange {n : NumberedLine} {v : Stave α} {text : String}
    {range : Option (Nat × Nat)} (h : Score.barberpoleRange n v text = .ok range) :
    ∀ ends ∈ range, v.hasCourse ends.1 ∧ v.hasCourse ends.2 := by
  unfold Score.barberpoleRange at h
  split at h
  · cases h; simp
  · obtain ⟨⟨first, last⟩, -, h⟩ := bind_eq_ok.1 h
    obtain ⟨_, h₁, h⟩ := bind_eq_ok.1 h
    obtain ⟨_, h₂, h⟩ := bind_eq_ok.1 h
    cases h
    simpa using ⟨checkCourse_eq_ok.1 h₁, checkCourse_eq_ok.1 h₂⟩

variable [Scalar α]

/-! ## Marks -/

/-- Ends the open slur at the cursor, if there is one. -/
def endSlur? (v : Stave α) (l : Layout α) (course : Nat) : Option (Stave α) :=
  v.openSlur.map fun start =>
    { v with openSlur := none }.place l (.slur start ⟨v.cursor, course⟩)

variable {l : Layout α} {v w : Stave α}

theorem run_put (l : Layout α) (v : Stave α) (m : Mark) :
    (put l m).run v =
      if v.counts m then .ok () (v.place l m) else .error .overflow v := by
  change (if v.counts m then set (v.place l m) else throw .overflow : Work (Stop α) _ _).run v = _
  split <;> rfl

@[simp] theorem outcome_put (l : Layout α) (v : Stave α) (m : Mark) :
    (put l m).outcome v = if v.counts m then .ok (v.place l m) else .error .overflow := by
  simp [put]

@[simp] theorem outcome_putMark (l : Layout α) (v : Stave α) (m : Nat → Mark) :
    (putMark l m).outcome v =
      if v.counts (m v.cursor) then .ok (v.place l (m v.cursor)) else .error .overflow := by
  simp [putMark]

theorem outcome_putSlur (l : Layout α) (line : Nat) (v : Stave α) (course : Nat) :
    (putSlur l line course).outcome v =
      match v.endSlur? l course with
      | none => .error (.fault (.unmatchedSlur line course))
      | some w => if v.isCountable then .ok w else .error .overflow := by
  unfold putSlur endSlur?
  rw [Work.outcome_get_bind, Work.outcome_bind, Work.outcome_set]
  cases v.openSlur with
  | none => rfl
  | some start =>
    change (put l _).outcome _ = _
    rw [outcome_put, Grid.counts_eq]
    rfl

/-- A mark that stands on no course can be written on any stave. -/
theorem outcome_putMark_of_offCourse {m : Nat → Mark} (hm : ∀ slot n, (m slot).courses n = []) :
    (putMark l m).outcome v = .ok (v.place l (m v.cursor)) := by
  rw [outcome_putMark, Grid.counts_eq, hm]
  rfl

/-- A mark that cannot be written changes nothing. -/
theorem after_put (l : Layout α) (v : Stave α) (m : Mark) :
    (put l m).after v = if v.counts m then v.place l m else v := by
  unfold Work.after
  rw [run_put]
  cases v.counts m <;> rfl

theorem spares_putMark (l : Layout α) (m : Nat → Mark) (v : Stave α) (e : Stop α) :
    (putMark l m).Spares e v := by
  refine .get_bind (.get_bind ?_)
  split
  · exact .of_ok rfl
  · exact .throw _

/-- To take the open slur off a stave that has none changes nothing. -/
theorem spares_putSlur (l : Layout α) (line course : Nat) (v : Stave α) (f : Fault α) :
    (putSlur l line course).Spares (.fault f) v := by
  intro w h
  have hstop := Work.outcome_of_run h
  rw [outcome_putSlur, endSlur?] at hstop
  obtain ⟨grid, first, labels, cursor, glyphs, openSlur, padding⟩ := v
  cases openSlur with
  | none => cases h; rfl
  | some start =>
    simp only [Option.map_some] at hstop
    split at hstop <;> cases hstop

/-! ## Acts -/

/-- The acts that writing on a stave is made of. -/
inductive Act (l : Layout α) (v : Stave α) : Stave α → Prop where
  | place {m : Mark} : m.Fits v → Act l v (v.place l m)
  | advance (slots : Nat) : Act l v (v.advance slots)
  | beginSlur {course : Nat} : v.hasCourse course → Act l v (v.beginSlur course)
  | endSlur {course : Nat} {w : Stave α} : v.hasCourse course → v.endSlur? l course = some w →
    Act l v w
  /-- What is left where the end of a slur cannot be written. -/
  | dropSlur : Act l v { v with openSlur := none }

/-- One act after another. -/
abbrev Acts (l : Layout α) : Stave α → Stave α → Prop := Relation.ReflTransGen (Act l)

/-- What acts keep, one by one, they keep in a row. -/
theorem Acts.invariant {P : Stave α → Prop} (hP : ∀ {v w}, Act l v w → P v → P w)
    (h : Acts l v w) (hv : P v) : P w := by
  induction h with
  | refl => exact hv
  | tail _ h ih => exact hP h ih

theorem Act.toGrid_eq (h : Act l v w) : w.toGrid = v.toGrid := by
  cases h with
  | endSlur _ h =>
    obtain ⟨start, -, rfl⟩ := Option.map_eq_some_iff.1 h
    rfl
  | _ => rfl

/-- Writing leaves the grid alone. -/
theorem Acts.toGrid_eq (h : Acts l v w) : w.toGrid = v.toGrid :=
  h.invariant (P := fun u => u.toGrid = v.toGrid) (fun h hu => h.toGrid_eq.trans hu) rfl

/-! ## Note tokens -/

/-- Writes what a note token says. Only the end of a slur that has not begun cannot be
written. -/
def writeNote? (l : Layout α) (v : Stave α) (t : NoteToken) : Option (Stave α) :=
  match t.sign with
  | .fret text => some (v.place l (.note v.cursor t.course text))
  | .semicircle side => some (v.place l (.semicircle side v.cursor t.course))
  | .slurBegin => some (v.beginSlur t.course)
  | .slurEnd => v.endSlur? l t.course

/-- A note token can be unreadable, then on a course that the stave does not have, then the end
of a slur that has not begun, and then on a line that cannot be counted. The beginning of a slur
is on no line before its end. -/
theorem writeToken_eq (l : Layout α) (line : Nat) (v : Stave α) (token : List Char) :
    v.writeToken l line token =
      match NoteToken.read? token with
      | none => .error (.fault (.malformedNote line (String.ofList token)))
      | some t =>
        if v.hasCourse t.course then
          match v.writeNote? l t with
          | some w => if t.sign = .slurBegin ∨ v.isCountable then .ok w else .error .overflow
          | none => .error (.fault (.unmatchedSlur line t.course))
        else .error (.fault (.courseOutOfRange line t.course v.courses)) := by
  unfold writeToken putToken
  cases NoteToken.read? token with
  | none => rfl
  | some t =>
    obtain ⟨course, sign⟩ := t
    simp only [Work.outcome_get_bind, Work.outcome_ofExcept_bind, checkCourse]
    by_cases hc : v.hasCourse course
    · simp only [hc, if_true]
      change Work.outcome (match sign with
        | .fret text => _ | .semicircle side => _ | .slurBegin => _ | .slurEnd => _) v = _
      cases sign with
      | fret text | semicircle side =>
        rw [outcome_putMark, Grid.counts_eq]
        simp [writeNote?, Mark.courses]
      | slurBegin => rfl
      | slurEnd =>
        rw [outcome_putSlur]
        cases h : v.endSlur? l course <;> simp [writeNote?, h]
    · simp only [hc]
      rfl

theorem writeToken_eq_ok {line : Nat} {token : List Char} :
    v.writeToken l line token = .ok w ↔
      ∃ t, NoteToken.read? token = some t ∧ v.hasCourse t.course ∧ v.writeNote? l t = some w ∧
        (t.sign = .slurBegin ∨ v.isCountable) := by
  rw [writeToken_eq]
  cases NoteToken.read? token with
  | none => simp
  | some t =>
    simp only [Option.some.injEq, exists_eq_left']
    split
    · rename_i hc
      cases v.writeNote? l t with
      | none => simp
      | some u => by_cases h : t.sign = .slurBegin ∨ v.isCountable <;> simp [hc, h]
    · simp_all

theorem act_writeNote {t : NoteToken} (hc : v.hasCourse t.course)
    (h : v.writeNote? l t = some w) : Act l v w := by
  obtain ⟨course, sign⟩ := t
  cases sign with
  | fret text => cases h; exact .place ⟨rfl, hc⟩
  | semicircle side => cases h; exact .place ⟨rfl, hc⟩
  | slurBegin => cases h; exact .beginSlur hc
  | slurEnd => exact .endSlur hc h

theorem act_writeToken {line : Nat} {token : List Char}
    (h : v.writeToken l line token = .ok w) : Act l v w := by
  obtain ⟨t, -, hc, hw, -⟩ := writeToken_eq_ok.1 h
  exact act_writeNote hc hw

/-- A note token that is found faulty leaves the stave as it was. -/
theorem spares_putToken (l : Layout α) (line : Nat) (token : List Char) (v : Stave α)
    (f : Fault α) : (putToken l line token).Spares (.fault f) v := by
  unfold putToken
  cases NoteToken.read? token with
  | none => exact .throw _
  | some t =>
    obtain ⟨course, sign⟩ := t
    refine .get_bind (.ofExcept_bind fun _ hc => ?_)
    cases sign with
    | fret text | semicircle side => exact spares_putMark l _ v _
    | slurBegin => exact .of_ok (t := v.beginSlur course) rfl
    | slurEnd => exact spares_putSlur l line course v f

theorem Acts.bind {β : Type} {p : Work (Stop α) (Stave α) Unit} {f : Unit → Work (Stop α) (Stave α) β}
    (hp : Acts l v (p.after v)) (hf : ∀ u, Acts l u ((f ()).after u)) :
    Acts l v ((p >>= f).after v) := by
  rw [Work.after_bind]
  split
  · exact hp
  · exact hp.trans (hf _)

theorem acts_putMark {m : Nat → Mark} (hm : (m v.cursor).Fits v) :
    Acts l v ((putMark l m).after v) := by
  change Acts l v ((put l (m v.cursor)).after v)
  rw [after_put]
  split
  · exact .single (.place hm)
  · exact .refl

theorem acts_putSlur (line : Nat) {course : Nat} (hc : v.hasCourse course) :
    Acts l v ((putSlur l line course).after v) := by
  unfold putSlur
  rw [Work.after_get_bind, Work.after_bind]
  cases hopen : v.openSlur with
  | none => exact .single .dropSlur
  | some start =>
    change Acts l v ((put l _).after { v with openSlur := none })
    rw [after_put]
    split
    · exact .single (.endSlur hc (by rw [endSlur?, hopen]; rfl))
    · exact .single .dropSlur

/-- Whatever stops a note token, it has come to some acts by then. -/
theorem acts_putToken (l : Layout α) (line : Nat) (token : List Char) (v : Stave α) :
    Acts l v ((putToken l line token).after v) := by
  unfold putToken
  cases NoteToken.read? token with
  | none => exact .refl
  | some t =>
    obtain ⟨course, sign⟩ := t
    change Acts l v (Work.after (ofExcept (v.checkCourse line course) >>= _) v)
    cases h : v.checkCourse line course with
    | error e => exact .refl
    | ok u =>
      have hc := checkCourse_eq_ok.1 h
      cases sign with
      | fret text => exact acts_putMark (m := (.note · course text)) ⟨rfl, hc⟩
      | semicircle side => exact acts_putMark (m := (.semicircle side · course)) ⟨rfl, hc⟩
      | slurBegin => exact .single (.beginSlur hc)
      | slurEnd => exact acts_putSlur line hc

/-! ## Note lines -/

/-- The stave with the rhythm sign of a note line, if it has one. -/
def writeRhythm (l : Layout α) (v : Stave α) (rhythm : Option Rhythm) : Stave α :=
  rhythm.elim v fun r => v.place l (.tick v.cursor r)

@[simp] theorem outcome_putRhythm (l : Layout α) (v : Stave α) (rhythm : Option Rhythm) :
    (putRhythm l rhythm).outcome v = .ok (v.writeRhythm l rhythm) := by
  cases rhythm with
  | none => rfl
  | some r => exact outcome_putMark_of_offCourse (m := (.tick · r)) fun _ _ => rfl

/-- The stave with a note line on it, or what has stopped the line. -/
def writeNotes (l : Layout α) (line : Nat) (v : Stave α) (rhythm : Option Rhythm)
    (tokens : String) : Except (Stop α) (Stave α) := do
  let w ← (Text.words tokens.toList).foldlM (writeToken l line) (v.writeRhythm l rhythm)
  return w.advance 1

theorem outcome_putNotes (l : Layout α) (line : Nat) (v : Stave α) (rhythm : Option Rhythm)
    (tokens : String) :
    (putNotes l line rhythm tokens).outcome v = v.writeNotes l line rhythm tokens := by
  unfold putNotes writeNotes
  rw [Work.outcome_bind, outcome_putRhythm]
  change Work.outcome (_ >>= _) _ = _
  rw [Work.outcome_bind, Work.outcome_forM]
  rfl

theorem acts_writeRhythm (l : Layout α) (v : Stave α) (rhythm : Option Rhythm) :
    Acts l v (v.writeRhythm l rhythm) := by
  cases rhythm with
  | none => exact .refl
  | some r => exact .single (.place rfl)

theorem acts_writeTokens {line : Nat} {tokens : List (List Char)}
    (h : tokens.foldlM (writeToken l line) v = .ok w) : Acts l v w := by
  induction tokens generalizing v with
  | nil => cases h; exact .refl
  | cons token tokens ih =>
    rw [List.foldlM_cons] at h
    obtain ⟨u, hu, hw⟩ := bind_eq_ok.1 h
    exact (ih hw).head (act_writeToken hu)

theorem acts_putTokens (l : Layout α) (line : Nat) (tokens : List (List Char)) (v : Stave α) :
    Acts l v ((tokens.forM (putToken l line)).after v) := by
  induction tokens generalizing v with
  | nil => exact .refl
  | cons token tokens ih => exact (acts_putToken l line token v).bind ih

/-- Wherever a note line is stopped, it has come to some acts by then. -/
theorem acts_putNotes (l : Layout α) (line : Nat) (rhythm : Option Rhythm) (tokens : String)
    (v : Stave α) : Acts l v ((putNotes l line rhythm tokens).after v) := by
  refine .bind ?_ fun u => .bind (acts_putTokens l line _ u) fun u => .single (.advance 1)
  rw [Work.after_of_outcome (outcome_putRhythm l v rhythm)]
  exact acts_writeRhythm l v rhythm

/-! ## Lines -/

/-- What a line does to the stave it stands on. A line that stands on no stave leaves the
stave alone. -/
def writeLine (l : Layout α) (v : Stave α) (n : NumberedLine) : Except (Stop α) (Stave α) :=
  match n.line with
  | .timeSignature figures => do
    let meter ← Score.argument n (readMeter figures)
    return (v.place l (.timeSignature v.cursor meter)).advance Score.meterSlots
  | .barline kind label =>
    let label := if label.isEmpty then none else some label
    let w := v.place l (.barline kind v.cursor label)
    .ok (if kind.takesSlot then w.advance 1 else w)
  | .barberpole range => do
    let range ← Score.barberpoleRange n v range
    if v.isCountable then return v.place l (.barberpole v.cursor range) else throw .overflow
  | .notes rhythm tokens => v.writeNotes l n.number rhythm tokens
  | .strum pattern => .ok (v.place l (.strum (v.cursor - 1) pattern))
  | .alfabeto chord => .ok (v.place l (.alfabeto v.cursor chord))
  | .sectionSign => .ok (v.place l (.sectionSign (v.cursor - 1)))
  | .blank => .ok (v.advance 1)
  | _ => .ok v

/-- A line that can be written is a run of acts. -/
theorem acts_writeLine {n : NumberedLine} (h : v.writeLine l n = .ok w) : Acts l v w := by
  obtain ⟨number, line⟩ := n
  cases line with
  | timeSignature figures =>
    obtain ⟨meter, -, h⟩ := bind_eq_ok.1 h
    cases h
    have hp : Acts l v (v.place l (.timeSignature v.cursor meter)) := .single (.place rfl)
    exact hp.tail (.advance Score.meterSlots)
  | barline kind label =>
    cases h
    generalize (if label.isEmpty then none else some label) = label
    have hp : Acts l v (v.place l (.barline kind v.cursor label)) := .single (.place rfl)
    split
    · exact hp.tail (.advance 1)
    · exact hp
  | barberpole text =>
    obtain ⟨range, hr, h⟩ := bind_eq_ok.1 h
    split at h
    · cases h
      exact .single (.place ⟨rfl, hasCourse_of_barberpoleRange hr⟩)
    · cases h
  | notes rhythm tokens =>
    obtain ⟨u, hu, h⟩ := bind_eq_ok.1 h
    cases h
    exact ((acts_writeRhythm l v rhythm).trans (acts_writeTokens hu)).tail (.advance 1)
  | strum pattern => cases h; exact .single (.place rfl)
  | alfabeto chord => cases h; exact .single (.place rfl)
  | sectionSign => cases h; exact .single (.place rfl)
  | blank => cases h; exact .single (.advance 1)
  | _ => cases h; exact .refl

end Stave

end Tablature
