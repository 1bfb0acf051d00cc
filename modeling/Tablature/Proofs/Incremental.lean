import Tablature.Proofs.FirstFault
import Tablature.Proofs.Source

/-!
# Reading in parts

A source that is cut behind the end of a line can be read in two parts: the lines of
the second are those of a source of its own, numbered on from the first, and they are
written on the score that the first has left. So what is wrong with the first part is
wrong with the whole, and if nothing is, the whole can fail only behind it.

* `feedAll_append`, `faults_append`: lines that are fed in two parts;
* `stopsAt_append`: a run that stops in its second part;
* `parse_append`: a source in two parts.
-/

namespace Tablature.Score

variable {α : Type} [Scalar α]

theorem feedAll_append (s : Score α) (xs ys : List NumberedLine) :
    s.feedAll (xs ++ ys) = (s.feedAll xs).feedAll ys :=
  List.foldl_append

theorem faults_append (s : Score α) (xs ys : List NumberedLine) :
    s.faults (xs ++ ys) = s.faults xs ++ (s.feedAll xs).faults ys := by
  induction xs generalizing s with
  | nil => rfl
  | cons n xs ih =>
    rw [List.cons_append, faults, faults, ih, List.append_assoc]
    rfl

/-- Behind lines that can be written, a run stops where the lines that follow them stop. -/
theorem stopsAt_append {s t : Score α} {xs ys : List NumberedLine} {n : NumberedLine} {e : Stop α}
    (hxs : s.stepAll xs = .ok t) (h : t.StopsAt ys n e) :
    ∃ before after u, ys = before ++ n :: after ∧ s.stepAll (xs ++ before) = .ok u ∧
      u.step n = .error e := by
  obtain ⟨before, after, u, rfl, hu, hn⟩ := h
  refine ⟨before, after, u, rfl, ?_, hn⟩
  rw [stepAll_append, hxs]
  exact hu

/-- A source that is cut behind the end of a line has the lines of its two parts, those of the
second numbered on from the first, and is fed as the first part and then the second. A fault of the
first part is the fault of the whole, and where the whole is a document the first part is one. Where
the first part is a document and the whole is not, the fault is that of the first line of all which
cannot be written: it stands behind the first part, and the fault names its number, if any. -/
theorem parse_append {a b : String} (ha : Text.EndsLine a.toList)
    (hb : b.toList.head? ≠ some '\uFEFF') :
    let k := a.toList.count '\n'
    let rest := (Line.tokenize b).map (.later k)
    (Line.tokenize a).length = k ∧
      Line.tokenize (a ++ b) = Line.tokenize a ++ rest ∧
      (∀ s : Score α,
        s.stepAll (Line.tokenize (a ++ b)) =
          (s.stepAll (Line.tokenize a) >>= fun t => t.stepAll rest) ∧
        s.feedAll (Line.tokenize (a ++ b)) = (s.feedAll (Line.tokenize a)).feedAll rest ∧
        s.faults (Line.tokenize (a ++ b)) =
          s.faults (Line.tokenize a) ++ (s.feedAll (Line.tokenize a)).faults rest) ∧
      (∀ e : Stop α, parse a = .error e → parse (a ++ b) = .error e) ∧
      (∀ d : Document α, parse (a ++ b) = .ok d → ∃ e : Document α, parse a = .ok e) ∧
      ∀ (d : Document α) (e : Stop α), parse a = .ok d → parse (a ++ b) = .error e →
        ∃ n, empty.StopsAt (Line.tokenize (a ++ b)) n e ∧
          (Line.tokenize (a ++ b))[n.number - 1]? = some n ∧ k < n.number ∧ e.IsOn n.number := by
  intro k rest
  have hk : (Line.tokenize a).length = k := length_tokenize ha
  have htokens : Line.tokenize (a ++ b) = Line.tokenize a ++ rest := by
    rw [tokenize_append_of_endsLine ha hb, hk]
  have hfirst (e : Stop α) (h : parse a = .error e) : parse (a ++ b) = .error e := by
    rw [parse_eq_error] at h ⊢
    rw [htokens, stepAll_append, h]
    rfl
  refine ⟨hk, htokens, fun s => ?_, hfirst, fun d h => ?_, fun d e hd h => ?_⟩
  · rw [htokens]
    exact ⟨stepAll_append _ _ _, feedAll_append _ _ _, faults_append _ _ _⟩
  · cases ha : parse (α := α) a with
    | ok e => exact ⟨e, rfl⟩
    | error e =>
      rw [hfirst e ha] at h
      cases h
  · obtain ⟨s, hs, -⟩ := parse_eq_ok.1 hd
    rw [parse_eq_error, htokens, stepAll_append, hs] at h
    obtain ⟨n, hn⟩ := stepAll_eq_error_iff.1 h
    obtain ⟨before, after, u, hrest, hu, hfault⟩ := stopsAt_append hs hn
    have hall : Line.tokenize (a ++ b) = (Line.tokenize a ++ before) ++ n :: after := by
      rw [htokens, hrest, List.append_assoc]
    have hnumber := number_of_tokenize hall
    refine ⟨n, ⟨_, after, u, hall, hu, hfault⟩, ?_, ?_, isOn_of_step hfault⟩
    · rw [hall, hnumber, Nat.add_sub_cancel, List.getElem?_append_right (Nat.le_refl _),
        Nat.sub_self, List.getElem?_cons_zero]
    · rw [hnumber, List.length_append, hk]
      omega

/-- A source with a mark of byte order, cut between two lines with carriage returns: its fault is in
the fifth line, the second of the second part. -/
theorem parse_append_marked :
    let a := "\uFEFF; Folias\r\nP-1\r\nS-\r\n"
    let b := "1-0\r\n7-0\n3-"
    Text.EndsLine a.toList ∧ b.toList.head? ≠ some '\uFEFF' ∧
      (∃ e : Document Float, parse a = .ok e) ∧
      parse (a ++ b) = .error (.fault (.courseOutOfRange 5 7 5) : Stop Float) ∧
      ∃ n, (empty : Score Float).StopsAt (Line.tokenize (a ++ b)) n
        (.fault (.courseOutOfRange 5 7 5)) ∧
        n = ⟨5, .notes none "7-0"⟩ := by
  intro a b
  have ha : Text.EndsLine a.toList := by decide +kernel
  have hb : b.toList.head? ≠ some '\uFEFF' := by decide +kernel
  have hok : (parse a).toOption.map (fun d : Document Float => d.pages.length) = some 1 := by
    decide +kernel
  obtain ⟨e, he, -⟩ := exists_of_toOption_map hok
  have herror : parse (a ++ b) = .error (.fault (.courseOutOfRange 5 7 5) : Stop Float) := by
    decide +kernel
  obtain ⟨-, -, -, -, -, hstop⟩ := parse_append (α := Float) ha hb
  obtain ⟨n, hn, hline, -, hon⟩ := hstop e _ he herror
  have hnumber : n.number = 5 := (hon 5 rfl).symm
  have hfifth : (Line.tokenize (a ++ b))[4]? = some ⟨5, .notes none "7-0"⟩ := by decide +kernel
  rw [hnumber] at hline
  exact ⟨ha, hb, ⟨e, he⟩, herror, n, hn, Option.some.inj (hline.symm.trans hfifth)⟩

end Tablature.Score
