import Tablature.Proofs.Brackets

/-!
# Slurs

The one slur that a stave keeps open is the one that the last bracket of its lines
begins, if it begins one. So every slur joins two brackets that stand side by side,
and what is open at the end can be read off the lines.

* `HasBrackets.writeNote`, `HasBrackets.writeLine`: a token and a line add their
  brackets;
* `Stave.Slurred`: the slurs of a stave are those that the brackets of its lines ask
  for, one for each ending;
* `openSlurs_eq`: the slurs of a document that never end.
-/

namespace Tablature

/-- The ends of the slur that a mark is, if it is one. -/
def Mark.slur? : Mark → Option (Anchor × Anchor)
  | slur start stop => some (start, stop)
  | _ => none

variable {α : Type}

/-- The slurs on a stave, in the order in which they were written. -/
def Stave.slurs (v : Stave α) : List (Anchor × Anchor) := v.glyphs.filterMap fun g => g.mark.slur?

namespace Stave

/-- A stave with the slurs of some brackets, which the cursor has reached. -/
structure HasBrackets (v : Stave α) (bs : List Bracket) : Prop where
  slurs : List.Forall₂ Joins v.slurs (endings bs)
  openSlur : v.openSlur = pending? bs
  reached : ∀ b ∈ bs, b.anchor.slot ≤ v.cursor

namespace HasBrackets

variable {v : Stave α} {bs : List Bracket}

theorem append_nil (h : v.HasBrackets bs) : v.HasBrackets (bs ++ []) := by
  rwa [List.append_nil]

theorem advance (h : v.HasBrackets bs) (slots : Nat) : (v.advance slots).HasBrackets bs where
  slurs := h.slurs
  openSlur := h.openSlur
  reached b hb := Nat.le_add_right_of_le (h.reached b hb)

theorem reached_concat (h : v.HasBrackets bs) (line course : Nat) (opens : Bool) :
    ∀ b ∈ bs ++ [⟨line, opens, ⟨v.cursor, course⟩⟩], b.anchor.slot ≤ v.cursor := by
  intro b hb
  rcases List.mem_append.1 hb with hb | hb
  · exact h.reached b hb
  · obtain rfl := List.mem_singleton.1 hb
    exact Nat.le_refl _

/-- What was open is forgotten. -/
theorem beginSlur (h : v.HasBrackets bs) (line course : Nat) :
    (v.beginSlur course).HasBrackets (bs ++ [⟨line, true, ⟨v.cursor, course⟩⟩]) where
  slurs := by rw [endings_concat_of_opens rfl]; exact h.slurs
  openSlur := by rw [pending?_concat]; rfl
  reached := h.reached_concat line course true

end HasBrackets

variable [Scalar α]

@[simp] theorem slurs_place (v : Stave α) (l : Layout α) (m : Mark) :
    (v.place l m).slurs = v.slurs ++ m.slur?.toList := by
  cases h : m.slur? <;> simp [slurs, place, h]

@[simp] theorem slurs_justify (v : Stave α) : v.justify.slurs = v.slurs := by
  unfold justify
  split
  · rfl
  · simp [slurs, List.filterMap_map]

@[simp] theorem openSlur_justify (v : Stave α) : v.justify.openSlur = v.openSlur := by
  unfold justify
  split <;> rfl

namespace HasBrackets

variable {l : Layout α} {v w : Stave α} {bs : List Bracket}

theorem place (h : v.HasBrackets bs) {m : Mark} (hm : m.slur? = none) :
    (v.place l m).HasBrackets bs where
  slurs := by rw [slurs_place, hm]; simpa using h.slurs
  openSlur := h.openSlur
  reached := h.reached

/-- What was open is the last bracket, and that is the one directly before the ending. -/
theorem endSlur (h : v.HasBrackets bs) (line : Nat) {course : Nat}
    (hw : v.endSlur? l course = some w) :
    w.HasBrackets (bs ++ [⟨line, false, ⟨v.cursor, course⟩⟩]) := by
  obtain ⟨start, hstart, rfl⟩ := Option.map_eq_some_iff.1 hw
  rw [h.openSlur, pending?, Option.map_eq_some_iff] at hstart
  obtain ⟨a, ha, rfl⟩ := hstart
  obtain ⟨ha, hopens⟩ := Option.filter_eq_some_iff.1 ha
  refine ⟨?_, by rw [pending?_concat]; rfl, h.reached_concat line course false⟩
  rw [endings_concat_of_not_opens rfl, slurs_place]
  exact forall₂_concat_iff.2 ⟨h.slurs, a, ha, hopens, rfl, h.reached a (List.mem_of_getLast? ha)⟩

/-- Writing a note token adds its bracket, if it is one. -/
theorem writeNote (h : v.HasBrackets bs) (line : Nat) {t : NoteToken}
    (hw : v.writeNote? l t = some w) :
    w.HasBrackets (bs ++ (t.bracket? line v.cursor).toList) := by
  obtain ⟨course, sign⟩ := t
  cases sign with
  | fret text => cases hw; exact (h.place rfl).append_nil
  | semicircle side => cases hw; exact (h.place rfl).append_nil
  | slurBegin => cases hw; exact h.beginSlur line course
  | slurEnd => exact h.endSlur line hw

theorem writeRhythm (h : v.HasBrackets bs) (rhythm : Option Rhythm) :
    (v.writeRhythm l rhythm).HasBrackets bs := by
  cases rhythm with
  | none => exact h
  | some r => exact h.place rfl

theorem writeTokens (h : v.HasBrackets bs) {line : Nat} {tokens : List (List Char)}
    (hw : tokens.foldlM (writeToken l line) v = .ok w) :
    w.HasBrackets (bs ++ tokenBrackets line v.cursor tokens) := by
  induction tokens generalizing v bs with
  | nil => cases hw; exact h.append_nil
  | cons token tokens ih =>
    rw [List.foldlM_cons] at hw
    obtain ⟨u, hu, hw⟩ := bind_eq_ok.1 hw
    obtain ⟨t, ht, -, hu, -⟩ := writeToken_eq_ok.1 hu
    have := ih (h.writeNote line hu) hw
    rwa [(writeNote_events hu).1, List.append_assoc, ← tokenBrackets_cons ht] at this

/-- Writing a line adds its brackets. -/
theorem writeLine (h : v.HasBrackets bs) {n : NumberedLine} (hw : v.writeLine l n = .ok w) :
    w.HasBrackets (bs ++ n.brackets v.cursor) := by
  obtain ⟨number, line⟩ := n
  cases line with
  | notes rhythm tokens =>
    obtain ⟨u, hu, hw⟩ := bind_eq_ok.1 hw
    cases hw
    have := ((h.writeRhythm rhythm).writeTokens hu).advance 1
    rwa [(writeRhythm_events l v rhythm).1] at this
  | timeSignature figures =>
    obtain ⟨meter, -, hw⟩ := bind_eq_ok.1 hw
    cases hw
    exact ((h.place rfl).advance Score.meterSlots).append_nil
  | barline kind label =>
    cases hw
    split
    · exact ((h.place rfl).advance 1).append_nil
    · exact (h.place rfl).append_nil
  | barberpole range =>
    obtain ⟨range, -, hw⟩ := bind_eq_ok.1 hw
    split at hw <;> cases hw
    exact (h.place rfl).append_nil
  | strum _ | alfabeto _ | sectionSign => cases hw; exact (h.place rfl).append_nil
  | blank => cases hw; exact (h.advance 1).append_nil
  | _ => cases hw; exact h.append_nil

end HasBrackets

/-- The slurs of a stave are those that the brackets of its lines ask for: one for each that
ends a slur, from the bracket directly before it. No bracket begins two. -/
structure Slurred (v : Stave α) (lines : List NumberedLine) : Prop
    extends v.HasBrackets (brackets 0 lines) where
  cursor : v.cursor = totalWidth lines
  starts : (v.slurs.map Prod.fst).Sublist
    (((brackets 0 lines).filter Bracket.opens).map Bracket.anchor)

theorem reading_slurred : Reading (α := α) Slurred where
  begin _ _ _ _ _ := ⟨⟨.nil, rfl, by simp [brackets]⟩, rfl, .slnil⟩
  line {l v w n lines} hv hw := by
    have h : w.HasBrackets (brackets 0 (lines ++ [n])) := by
      rw [brackets_concat, Nat.zero_add, ← hv.cursor]
      exact hv.toHasBrackets.writeLine hw
    refine ⟨h, ?_, starts_sublist h.slurs⟩
    rw [(writeLine_events hw).1, hv.cursor, totalWidth_concat]

theorem Slurred.justify {v : Stave α} {lines : List NumberedLine} (h : v.Slurred lines) :
    v.justify.Slurred lines where
  slurs := by rw [slurs_justify]; exact h.slurs
  openSlur := by rw [openSlur_justify]; exact h.openSlur
  reached := by rw [cursor_justify]; exact h.reached
  cursor := by rw [cursor_justify]; exact h.cursor
  starts := by rw [slurs_justify]; exact h.starts

end Stave

/-! ## Slurs that never end -/

/-- The slurs that the lines of a page leave open: for each stave of which the last bracket
begins a slur, where that is. -/
def pendingSlurs (number : Nat) (lines : List NumberedLine) : List OpenSlur :=
  (staveSections lines).zipIdx.filterMap fun (ls, i) =>
    (pending? (brackets 0 ls)).map fun start => ⟨number, i + 1, start⟩

/-- The staves counted from `k` on that keep a slur open are those of which the last bracket
begins one. -/
theorem openSlurs_staves (number k : Nat) {vs : List (Stave α)} {lss : List (List NumberedLine)}
    (h : List.Forall₂ Stave.Slurred vs lss) :
    ((vs.zipIdx k).filterMap fun (v, i) =>
      v.openSlur.map fun start => (⟨number, i + 1, start⟩ : OpenSlur)) =
    (lss.zipIdx k).filterMap fun (ls, i) =>
      (pending? (brackets 0 ls)).map fun start => ⟨number, i + 1, start⟩ := by
  induction h generalizing k with
  | nil => rfl
  | cons hv _ ih => simp only [List.zipIdx_cons, List.filterMap_cons, hv.openSlur, ih]

/-- The slurs of a document that never end are those that the lines of its pages leave open. -/
theorem Document.openSlurs_eq {d : Document α} {lines : List NumberedLine}
    (h : d.Follows Stave.Slurred lines) :
    d.openSlurs = (List.zipWith (fun p ls => pendingSlurs p.number ls) d.pages
      (pageSections lines)).flatten := by
  unfold Document.Follows at h
  unfold Document.openSlurs
  generalize d.pages = ps, pageSections lines = lss at h ⊢
  induction h with
  | nil => rfl
  | cons hp _ ih =>
    rw [List.flatMap_cons, List.zipWith_cons_cons, List.flatten_cons, ih, pendingSlurs,
      openSlurs_staves _ 0 hp]

end Tablature
