import Mathlib.Data.List.Induction
import Tablature.Proofs.Accounting

/-!
# Slur brackets

The note tokens that begin and end slurs, as the lines of a stave have them. A stave
keeps one open slur at most; the lines know nothing of that, and say for each bracket
only which one stands directly before it.

* `brackets`: the brackets of lines, in their order, each in its slot;
* `endings`: those that end a slur, each with the bracket directly before it;
* `pending?`: where a slur begins that the brackets leave open;
* `unmatched?`: the first bracket that ends a slur and has none directly before it
  that begins one;
* `Joins`: when a slur is the one that an ending asks for.
-/

namespace Tablature

/-- A note token that begins or ends a slur: its line, which of the two it does, and where. -/
structure Bracket where
  line : Nat
  opens : Bool
  anchor : Anchor
  deriving DecidableEq, Repr

/-- The bracket that a note token in slot `slot` is, if it is one. -/
def NoteToken.bracket? (line slot : Nat) (t : NoteToken) : Option Bracket :=
  match t.sign with
  | .slurBegin => some ⟨line, true, ⟨slot, t.course⟩⟩
  | .slurEnd => some ⟨line, false, ⟨slot, t.course⟩⟩
  | _ => none

/-- The brackets among note tokens that can be read. -/
def tokenBrackets (line slot : Nat) (tokens : List (List Char)) : List Bracket :=
  tokens.filterMap fun token => (NoteToken.read? token).bind (NoteToken.bracket? line slot)

/-- The brackets of a line at slot `slot`. -/
def NumberedLine.brackets (slot : Nat) (n : NumberedLine) : List Bracket :=
  match n.line with
  | .notes _ tokens => tokenBrackets n.number slot (Text.words tokens.toList)
  | _ => []

/-- The brackets of lines from slot `slot` on, each in the slot that the lines before it have
reached. -/
def brackets : Nat → List NumberedLine → List Bracket
  | _, [] => []
  | slot, n :: lines => n.brackets slot ++ brackets (slot + n.line.width) lines

theorem tokenBrackets_cons {line slot : Nat} {token : List Char} {t : NoteToken}
    (ht : NoteToken.read? token = some t) (tokens : List (List Char)) :
    tokenBrackets line slot (token :: tokens) =
      (t.bracket? line slot).toList ++ tokenBrackets line slot tokens := by
  cases h : t.bracket? line slot <;> simp [tokenBrackets, ht, h]

theorem brackets_concat (slot : Nat) (lines : List NumberedLine) (n : NumberedLine) :
    brackets slot (lines ++ [n]) = brackets slot lines ++ n.brackets (slot + totalWidth lines) := by
  induction lines generalizing slot with
  | nil => exact List.append_nil _
  | cons m lines ih =>
    simp only [List.cons_append, brackets, ih, List.append_assoc, totalWidth, List.map_cons,
      List.sum_cons, Nat.add_assoc]

/-- Each bracket with the one directly before it. -/
def withPrevious (bs : List Bracket) : List (Option Bracket × Bracket) :=
  (none :: bs.map some).zip bs

/-- The brackets that end a slur, each with the one directly before it. -/
def endings (bs : List Bracket) : List (Option Bracket × Bracket) :=
  (withPrevious bs).filter fun x => !x.2.opens

/-- Where the last bracket is, if it begins a slur. -/
def pending? (bs : List Bracket) : Option Anchor :=
  (bs.getLast?.filter Bracket.opens).map Bracket.anchor

/-- The first bracket that ends a slur and is the first of all or directly behind another that
ends one. -/
def unmatched? (bs : List Bracket) : Option Bracket :=
  ((endings bs).find? fun x => x.1.all fun a => !a.opens).map Prod.snd

/-- A slur joins the two brackets of a pair if the first begins it. It goes to the right. -/
def Joins (slur : Anchor × Anchor) (pair : Option Bracket × Bracket) : Prop :=
  ∃ a, pair.1 = some a ∧ a.opens = true ∧ slur = (a.anchor, pair.2.anchor) ∧
    a.anchor.slot ≤ pair.2.anchor.slot

theorem withPrevious_concat (bs : List Bracket) (b : Bracket) :
    withPrevious (bs ++ [b]) = withPrevious bs ++ [(bs.getLast?, b)] := by
  have h (prev : Option Bracket) : (prev :: (bs ++ [b]).map some).zip (bs ++ [b]) =
      (prev :: bs.map some).zip bs ++ [(bs.getLast?.or prev, b)] := by
    induction bs generalizing prev with
    | nil => rfl
    | cons a bs ih =>
      simp only [List.cons_append, List.map_cons, List.zip_cons_cons] at ih ⊢
      rw [ih]
      cases hl : bs.getLast? <;> simp [List.getLast?_cons, hl]
  exact (h none).trans (by rw [Option.or_none]; rfl)

/-- A bracket that begins a slur ends none. -/
theorem endings_concat_of_opens {bs : List Bracket} {b : Bracket} (h : b.opens = true) :
    endings (bs ++ [b]) = endings bs := by
  simp [endings, withPrevious_concat, h]

theorem endings_concat_of_not_opens {bs : List Bracket} {b : Bracket} (h : b.opens = false) :
    endings (bs ++ [b]) = endings bs ++ [(bs.getLast?, b)] := by
  simp [endings, withPrevious_concat, h]

theorem previous_sublist (bs : List Bracket) :
    ((endings bs).filterMap Prod.fst).Sublist bs.dropLast := by
  induction bs using List.reverseRecOn with
  | nil => exact .slnil
  | append_singleton bs b ih =>
    rw [List.dropLast_concat]
    cases hb : b.opens with
    | true => rw [endings_concat_of_opens hb]; exact ih.trans (List.dropLast_sublist bs)
    | false =>
      rw [endings_concat_of_not_opens hb, List.filterMap_append]
      rcases List.eq_nil_or_concat' bs with rfl | ⟨init, a, rfl⟩
      · exact .slnil
      · rw [List.dropLast_concat] at ih
        rw [List.getLast?_concat]
        exact ih.append (.refl [a])

/-- The slurs that the endings ask for begin at brackets of their own, in the order of these. -/
theorem starts_sublist {bs : List Bracket} {slurs : List (Anchor × Anchor)}
    (h : List.Forall₂ Joins slurs (endings bs)) :
    (slurs.map Prod.fst).Sublist ((bs.filter Bracket.opens).map Bracket.anchor) := by
  have e : slurs.map Prod.fst =
      (((endings bs).filterMap Prod.fst).filter Bracket.opens).map Bracket.anchor := by
    generalize endings bs = pairs at h
    induction h with
    | nil => rfl
    | cons hj _ ih =>
      obtain ⟨a, ha, hopens, rfl, -⟩ := hj
      simp [ha, hopens, ih]
  rw [e]
  exact (((previous_sublist bs).trans (List.dropLast_sublist bs)).filter _).map _

@[simp] theorem pending?_concat (bs : List Bracket) (b : Bracket) :
    pending? (bs ++ [b]) = if b.opens then some b.anchor else none := by
  simp only [pending?, List.getLast?_concat, Option.filter]
  split <;> rfl

/-- What is unmatched stays so, whatever follows. -/
theorem unmatched?_append {bs : List Bracket} {b : Bracket} (h : unmatched? bs = some b)
    (cs : List Bracket) : unmatched? (bs ++ cs) = some b := by
  induction cs generalizing bs with
  | nil => rwa [List.append_nil]
  | cons c cs ih =>
    rw [List.append_cons]
    refine ih ?_
    cases hc : c.opens with
    | true => rwa [unmatched?, endings_concat_of_opens hc]
    | false =>
      obtain ⟨x, hx, rfl⟩ := Option.map_eq_some_iff.1 h
      rw [unmatched?, endings_concat_of_not_opens hc, List.find?_append, hx]
      rfl

/-- Where nothing is open and nothing is unmatched yet, a bracket that ends a slur is the first
unmatched one. -/
theorem unmatched?_concat {bs : List Bracket} {b : Bracket} (h : unmatched? bs = none)
    (hopen : pending? bs = none) (hb : b.opens = false) : unmatched? (bs ++ [b]) = some b := by
  have hlast : (bs.getLast?.all fun a => !a.opens) = true := by
    cases hl : bs.getLast? with
    | none => rfl
    | some a =>
      rw [pending?, hl] at hopen
      cases ha : a.opens with
      | true => simp [ha] at hopen
      | false => simp [ha]
  rw [unmatched?, Option.map_eq_none_iff] at h
  rw [unmatched?, endings_concat_of_not_opens hb, List.find?_append, h]
  simp [hlast]

/-- Where every ending is joined by a slur, none is unmatched. -/
theorem unmatched?_eq_none {bs : List Bracket} {slurs : List (Anchor × Anchor)}
    (h : List.Forall₂ Joins slurs (endings bs)) : unmatched? bs = none := by
  rw [unmatched?, Option.map_eq_none_iff, List.find?_eq_none]
  refine forall_right_of_forall₂ h fun _ _ hj => ?_
  obtain ⟨a, ha, hopens, -, -⟩ := hj
  simp [ha, hopens]

end Tablature
