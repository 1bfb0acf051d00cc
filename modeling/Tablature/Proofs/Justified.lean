import Tablature.Proofs.Lockstep
import Tablature.Proofs.Source

/-!
# The line for justified staves

Whether staves are justified is asked when a document is finished, and at no time
before. So the line that asks for it may stand anywhere in a source, and any number
of times: every stave is justified, those before the line and those behind it.

* `suffices_unjustified`: no line looks whether staves are justified;
* `agree_parse`: two sources that differ in such lines alone write one document,
  which is justified or not;
* `parse_justified`: the line moved to the end of a source, repeated, and left out.
-/

namespace Tablature

/-- Whether the line asks for justified staves. -/
def Line.justifies (line : Line) : Bool := line == .flag .justified

/-- Whether the line of a source asks for justified staves. -/
def Text.justifies (text : List Char) : Bool := (Line.classify text).justifies

variable {α : Type} [Scalar α]

namespace Layout

/-- The layout, not asked to justify. -/
def unjustified (l : Layout α) : Layout α := { l with justified := false }

theorem suffices_unjustified : Suffices (α := α) unjustified fun _ => True where
  change l c := by
    cases c with
    | length s v => cases s <;> rfl
    | count s n => cases s <;> rfl
    | face s face => cases s <;> rfl
    | flag flag => cases flag <;> rfl
    | _ => rfl
  styled l line m _ _ := by cases m <;> rfl
  page _ _ _ := rfl
  title _ _ _ _ := rfl
  composer _ _ _ _ := rfl
  stave _ _ := rfl

end Layout

/-- No line sees whether another asks for justified staves. -/
theorem Line.isUnseen_of_justifies {line : Line} (h : line.justifies = true) :
    line.IsUnseen (fun l l' : Layout α => l.unjustified = l'.unjustified) ∧
      line.IsUnseen (flip fun l l' : Layout α => l.unjustified = l'.unjustified) := by
  obtain rfl : line = .flag .justified := by simpa [justifies] using h
  exact isUnseen_of_view rfl rfl fun _ => rfl

namespace Score

/-- The finished document is justified if any line has asked for it. -/
theorem finish_of_stepAll {s : Score α} {lines : List NumberedLine}
    (h : empty.stepAll lines = .ok s) :
    s.finish = if lines.any (·.line.justifies) then s.document.justify else s.document := by
  have hflag : s.layout.justified = (lines.any (·.line.justifies) || false) :=
    Layout.hasFlag_of_obeyAll .justified (obeyAll_of_stepAll h)
  unfold finish
  rw [hflag, Bool.or_false]

/-- Two sources that differ in nothing but lines that ask for justified staves write one document,
justified where there is such a line, or have the same fault. -/
theorem agree_parse {xs ys : List (List Char)} (hxs : ∀ line ∈ xs, Text.IsLine line)
    (hys : ∀ line ∈ ys, Text.IsLine line)
    (h : xs.filter (!Text.justifies ·) = ys.filter (!Text.justifies ·)) :
    Agree Stop.Alike (fun d e : Document α => ∃ d₀ : Document α,
        d = (if xs.any Text.justifies then d₀.justify else d₀) ∧
        e = (if ys.any Text.justifies then d₀.justify else d₀))
      (parse (Text.unlines xs)) (parse (Text.unlines ys)) := by
  have hany {zs : List (List Char)} (hzs : ∀ line ∈ zs, Text.IsLine line) :
      (Line.tokenize (Text.unlines zs)).any (·.line.justifies) = zs.any Text.justifies := by
    have hmap := congrArg (List.any · Line.justifies) (map_line_tokenize hzs)
    rwa [List.any_map, List.any_map] at hmap
  have hfilter : ((Line.tokenize (Text.unlines xs)).map NumberedLine.line).filter (!·.justifies) =
      ((Line.tokenize (Text.unlines ys)).map NumberedLine.line).filter (!·.justifies) := by
    rw [map_line_tokenize hxs, map_line_tokenize hys, List.filter_map, List.filter_map]
    exact congrArg (List.map Line.classify) h
  have hbut := sameBut_of_filter
    (fun line hline => Line.isUnseen_of_justifies (α := α) (by simpa using hline)) hfilter
  have hrun := Layout.suffices_unjustified.agree_stepAll (fun _ _ => trivial) hbut
    (s := empty) (t := empty) ⟨rfl, rfl⟩
  unfold parse
  cases hs : (empty : Score α).stepAll (Line.tokenize (Text.unlines xs)) <;>
    cases ht : (empty : Score α).stepAll (Line.tokenize (Text.unlines ys)) <;>
    rw [hs, ht] at hrun <;> cases hrun
  · rename_i he
    exact .error he
  · rename_i s t hst
    refine .ok ⟨s.document, ?_, ?_⟩
    · rw [finish_of_stepAll hs, hany hxs]
    · rw [finish_of_stepAll ht, hany hys, hst.2]

/-- Where both ask for justified staves, they have the same document or the same fault. -/
theorem agree_parse_of_any {xs ys : List (List Char)} (hxs : ∀ line ∈ xs, Text.IsLine line)
    (hys : ∀ line ∈ ys, Text.IsLine line)
    (h : xs.filter (!Text.justifies ·) = ys.filter (!Text.justifies ·))
    (hx : xs.any Text.justifies = true) (hy : ys.any Text.justifies = true) :
    Agree (Stop.Alike (α := α)) Eq (parse (Text.unlines xs)) (parse (Text.unlines ys)) := by
  refine (agree_parse hxs hys h).imp_ok ?_
  rintro _ _ ⟨d, rfl, rfl⟩
  rw [if_pos hx, if_pos hy]

/-- A line for justified staves may stand anywhere among the others: moved to the end, or
repeated, it gives the same document or the same fault. That document is the one that the source
gives without such lines, justified. -/
theorem parse_justified {a b : List (List Char)} {j : List Char}
    (hlines : ∀ line ∈ a ++ j :: b, Text.IsLine line) (hj : Text.justifies j = true) :
    Agree (Stop.Alike (α := α)) Eq (parse (Text.unlines (a ++ j :: b)))
        (parse (Text.unlines (a ++ b ++ [j]))) ∧
      (∀ xs : List (List Char), (∀ line ∈ xs, Text.IsLine line) → xs.any Text.justifies = true →
        xs.filter (!Text.justifies ·) = (a ++ b).filter (!Text.justifies ·) →
        Agree (Stop.Alike (α := α)) Eq (parse (Text.unlines (a ++ j :: b)))
          (parse (Text.unlines xs))) ∧
      ((a ++ b).any Text.justifies = false →
        Agree (Stop.Alike (α := α)) (fun d e => d = e.justify) (parse (Text.unlines (a ++ j :: b)))
          (parse (Text.unlines (a ++ b)))) := by
  have hothers : (a ++ j :: b).filter (!Text.justifies ·) = (a ++ b).filter (!Text.justifies ·) := by
    simp [hj]
  have hend : (a ++ b ++ [j]).filter (!Text.justifies ·) = (a ++ b).filter (!Text.justifies ·) := by
    simp [hj]
  have hany : (a ++ j :: b).any Text.justifies = true := by simp [hj]
  have hlinesEnd : ∀ line ∈ a ++ b ++ [j], Text.IsLine line := fun line hline =>
    hlines line (by simp only [List.mem_append, List.mem_cons] at hline ⊢; grind)
  have hlinesOff : ∀ line ∈ a ++ b, Text.IsLine line := fun line hline =>
    hlinesEnd line (List.mem_append_left _ hline)
  refine ⟨?_, fun xs hxs hask h => ?_, fun hnone => ?_⟩
  · exact agree_parse_of_any hlines hlinesEnd (hothers.trans hend.symm) hany (by simp [hj])
  · exact agree_parse_of_any hlines hxs (hothers.trans h.symm) hany hask
  · refine (agree_parse hlines hlinesOff hothers).imp_ok ?_
    rintro _ _ ⟨d, rfl, rfl⟩
    rw [if_pos hany, hnone]
    rfl

/-- A line for justified staves before eight notes that fill a stave, behind them, and in both
places and after each note: the stave is spread. -/
theorem parse_justified_of_full :
    let a := ["SLOTS 8".toList, "P-1".toList, "S-".toList]
    let notes := List.replicate 8 "1-0".toList
    let ask := "JUSTIFIED".toList
    let often := a ++ ask :: notes.flatMap fun note => [note, ask]
    (∀ line ∈ a ++ ask :: notes, Text.IsLine line) ∧ Text.justifies ask = true ∧
      ∃ d : Document Float,
        parse (Text.unlines (a ++ ask :: notes)) = .ok d ∧
        parse (Text.unlines (a ++ notes ++ [ask])) = .ok d ∧
        parse (Text.unlines often) = .ok d ∧
        d.pages.flatMap (·.staves.map (·.padding.isSome)) = [true] := by
  intro a notes ask often
  have hlines : ∀ line ∈ a ++ ask :: notes, Text.IsLine line := by decide +kernel
  have hask : Text.justifies ask = true := by decide +kernel
  have h : (parse (Text.unlines (a ++ ask :: notes))).toOption.map
      (fun d : Document Float => d.pages.flatMap (·.staves.map (·.padding.isSome))) =
      some [true] := by
    decide +kernel
  obtain ⟨d, hd, hpadding⟩ := exists_of_toOption_map h
  obtain ⟨hend, hoften, -⟩ := parse_justified (α := Float) hlines hask
  have hoften := hoften often (by decide +kernel) (by decide +kernel) (by decide +kernel)
  rw [hd] at hend hoften
  obtain ⟨_, hend, rfl⟩ := hend.exists_ok
  obtain ⟨_, hoften, rfl⟩ := hoften.exists_ok
  exact ⟨hlines, hask, _, hd, hend, hoften, hpadding⟩

end Score

end Tablature
