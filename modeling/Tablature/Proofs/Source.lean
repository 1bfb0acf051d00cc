import Tablature.Line

/-!
# Sources written line by line

A source with given lines has these lines, and a source that is cut behind the end of
a line has the lines of its two parts. Nothing else of a text tells where its lines
are, so both are told by putting one line in front of others.

* `Text.unlines`: the source with given lines;
* `tokenize_unlines`: its lines are the given ones, numbered from one;
* `Text.EndsLine`: the texts behind which a source can be cut;
* `tokenize_append_of_endsLine`: the numbered lines of a source that is cut there.
-/

namespace Tablature

theorem Text.lines_append {line : List Char} (h : '\n' ∉ line) (cs : List Char) :
    lines (line ++ '\n' :: cs) = line :: lines cs := by
  have hne : cs.splitOn '\n' ≠ [] := List.splitOn_ne_nil _ _
  simp only [lines, List.splitOn_append_cons_self_of_not_mem h, List.getLast?_cons,
    List.getLast?_eq_some_getLast hne, List.dropLast_cons_of_ne_nil hne, Option.getD_some]
  split <;> rfl

/-- The lines of a text that begins with whole lines: these, and those of what follows them. -/
theorem Text.lines_flatMap_append {texts : List (List Char)} (h : ∀ line ∈ texts, '\n' ∉ line)
    (cs : List Char) :
    lines ((texts.flatMap fun line => line ++ ['\n']) ++ cs) = texts ++ lines cs := by
  induction texts with
  | nil => rfl
  | cons line texts ih =>
    rw [List.flatMap_cons, List.append_assoc, List.append_assoc, List.singleton_append,
      lines_append (h line List.mem_cons_self),
      ih fun line hline => h line (List.mem_cons_of_mem _ hline), List.cons_append]

theorem Text.lines_flatMap {texts : List (List Char)} (h : ∀ line ∈ texts, '\n' ∉ line) :
    lines (texts.flatMap fun line => line ++ ['\n']) = texts := by
  have hlines := lines_flatMap_append h []
  rwa [List.append_nil, show lines [] = [] from rfl, List.append_nil] at hlines

theorem withoutMark_eq_self {cs : List Char} (h : cs.head? ≠ some '\uFEFF') :
    Line.withoutMark cs = cs := by
  unfold Line.withoutMark
  split
  · exact absurd rfl h
  · rfl

namespace Text

/-- A text that can be a line of any source: no line feed is in it, and no mark of byte order in
front. -/
structure IsLine (line : List Char) : Prop where
  unbroken : '\n' ∉ line
  unmarked : line.head? ≠ some '\uFEFF'

instance : DecidablePred IsLine := fun line =>
  decidable_of_iff ('\n' ∉ line ∧ line.head? ≠ some '\uFEFF')
    ⟨fun h => ⟨h.1, h.2⟩, fun h => ⟨h.unbroken, h.unmarked⟩⟩

/-- The source with the given lines, each ended by a line feed. -/
def unlines (lines : List (List Char)) : String :=
  String.ofList (lines.flatMap fun line => line ++ ['\n'])

theorem lines_unlines {texts : List (List Char)} (h : ∀ line ∈ texts, IsLine line) :
    lines (unlines texts).toList = texts := by
  rw [unlines, String.toList_ofList, lines_flatMap fun line hline => (h line hline).unbroken]

theorem head?_unlines {texts : List (List Char)} (h : ∀ line ∈ texts, IsLine line) :
    (unlines texts).toList.head? ≠ some '\uFEFF' := by
  unfold unlines
  rw [String.toList_ofList]
  cases texts with
  | nil => simp
  | cons line texts =>
    have hline := (h line List.mem_cons_self).unmarked
    cases line with
    | nil => simp
    | cons c cs => simpa using hline

end Text

theorem tokenize_unlines {texts : List (List Char)} (h : ∀ line ∈ texts, Text.IsLine line) :
    Line.tokenize (Text.unlines texts) =
      (texts.zipIdx 1).map fun (text, n) => ⟨n, Line.classify text⟩ := by
  unfold Line.tokenize
  rw [withoutMark_eq_self (Text.head?_unlines h), Text.lines_unlines h]

theorem map_line_tokenize {texts : List (List Char)} (h : ∀ line ∈ texts, Text.IsLine line) :
    (Line.tokenize (Text.unlines texts)).map NumberedLine.line = texts.map Line.classify := by
  rw [tokenize_unlines h, List.map_map]
  have hclassify : (NumberedLine.line ∘ fun (p : List Char × Nat) => ⟨p.2, Line.classify p.1⟩) =
      Line.classify ∘ Prod.fst := rfl
  rw [hclassify, ← List.map_map, List.zipIdx_map_fst]

/-! ## Sources in two parts -/

/-- The line moved down by `k`. -/
def NumberedLine.later (k : Nat) (n : NumberedLine) : NumberedLine :=
  { n with number := n.number + k }

namespace Text

/-- No line of the text goes on behind it: it is empty or ends in a line feed. -/
def EndsLine (cs : List Char) : Prop := cs = [] ∨ cs.getLast? = some '\n'

instance : DecidablePred EndsLine := fun cs =>
  inferInstanceAs (Decidable (cs = [] ∨ cs.getLast? = some '\n'))

/-- What stands behind the first character of such a text is such a text; after a character that
is no line feed, something stands there. -/
theorem EndsLine.tail {c : Char} {cs : List Char} (h : EndsLine (c :: cs)) :
    EndsLine cs ∧ (c ≠ '\n' → cs ≠ []) := by
  cases cs with
  | nil =>
    obtain h | h := h
    · cases h
    · exact ⟨.inl rfl, fun hc => absurd (Option.some.inj h) hc⟩
  | cons d cs =>
    obtain h | h := h
    · cases h
    · rw [List.getLast?_cons_cons] at h
      exact ⟨.inr h, fun _ => List.cons_ne_nil _ _⟩

/-- Such a text is made of whole lines. -/
theorem EndsLine.exists_lines {cs : List Char} (h : EndsLine cs) :
    ∃ texts : List (List Char), (∀ line ∈ texts, '\n' ∉ line) ∧
      cs = texts.flatMap fun line => line ++ ['\n'] := by
  induction cs with
  | nil => exact ⟨[], nofun, rfl⟩
  | cons c cs ih =>
    obtain ⟨htail, hne⟩ := h.tail
    obtain ⟨texts, htexts, hcs⟩ := ih htail
    by_cases hc : c = '\n'
    · refine ⟨[] :: texts, ?_, by rw [hc, hcs]; rfl⟩
      rintro line (_ | ⟨_, hline⟩)
      · exact List.not_mem_nil
      · exact htexts line hline
    · -- The line that begins with `c` goes on with the first of the others, which is there.
      cases texts with
      | nil => exact absurd hcs (hne hc)
      | cons line texts =>
        refine ⟨(c :: line) :: texts, ?_, by rw [hcs]; rfl⟩
        rintro l (_ | ⟨_, hl⟩)
        · exact List.not_mem_cons_of_ne_of_not_mem (Ne.symm hc) (htexts line List.mem_cons_self)
        · exact htexts l (List.mem_cons_of_mem _ hl)

theorem lines_append_of_endsLine {a : List Char} (ha : EndsLine a) (b : List Char) :
    lines (a ++ b) = lines a ++ lines b := by
  obtain ⟨texts, htexts, rfl⟩ := ha.exists_lines
  rw [lines_flatMap_append htexts, lines_flatMap htexts]

theorem count_flatMap {texts : List (List Char)} (h : ∀ line ∈ texts, '\n' ∉ line) :
    (texts.flatMap fun line => line ++ ['\n']).count '\n' = texts.length := by
  induction texts with
  | nil => rfl
  | cons line texts ih =>
    have hline : line.count '\n' = 0 := List.count_eq_zero.2 (h line List.mem_cons_self)
    rw [List.flatMap_cons, List.count_append, List.count_append, hline,
      ih fun l hl => h l (List.mem_cons_of_mem _ hl), List.count_singleton_self, List.length_cons]
    omega

/-- Such a text has as many lines as line feeds. -/
theorem length_lines {a : List Char} (ha : EndsLine a) : (lines a).length = a.count '\n' := by
  obtain ⟨texts, htexts, rfl⟩ := ha.exists_lines
  rw [lines_flatMap htexts, count_flatMap htexts]

end Text

section

variable {a b : List Char}

theorem withoutMark_append (hb : b.head? ≠ some '\uFEFF') :
    Line.withoutMark (a ++ b) = Line.withoutMark a ++ b := by
  cases a with
  | nil => exact withoutMark_eq_self hb
  | cons c cs =>
    by_cases hc : c = '\uFEFF'
    · subst hc; rfl
    · have hmark (ds : List Char) : (c :: ds).head? ≠ some '\uFEFF' := fun h =>
        hc (Option.some.inj h)
      rw [List.cons_append, withoutMark_eq_self (hmark _), withoutMark_eq_self (hmark _),
        List.cons_append]

theorem endsLine_withoutMark (ha : Text.EndsLine a) : Text.EndsLine (Line.withoutMark a) := by
  unfold Line.withoutMark
  split
  · exact ha.tail.1
  · exact ha

/-- The mark of byte order is no line feed. -/
theorem count_withoutMark : (Line.withoutMark a).count '\n' = a.count '\n' := by
  unfold Line.withoutMark
  split
  · exact (List.count_cons_of_ne (by decide)).symm
  · rfl

end

/-- A source that is cut behind the end of a line has the lines of its first part, and then those
of its second part, which are as many lines later as the first has. -/
theorem tokenize_append_of_endsLine {a b : String} (ha : Text.EndsLine a.toList)
    (hb : b.toList.head? ≠ some '\uFEFF') :
    Line.tokenize (a ++ b) =
      Line.tokenize a ++ (Line.tokenize b).map (.later (Line.tokenize a).length) := by
  unfold Line.tokenize
  rw [String.toList_append, withoutMark_append hb, withoutMark_eq_self hb,
    Text.lines_append_of_endsLine (endsLine_withoutMark ha), List.zipIdx_append, List.map_append,
    List.length_map, List.length_zipIdx, List.map_map]
  refine congrArg _ ?_
  rw [Nat.add_comm 1, ← List.map_snd_add_zipIdx_eq_zipIdx, List.map_map]
  exact List.map_congr_left fun p _ => rfl

/-- A source that ends a line has as many lines as line feeds. -/
theorem length_tokenize {a : String} (ha : Text.EndsLine a.toList) :
    (Line.tokenize a).length = a.toList.count '\n' := by
  rw [Line.tokenize, List.length_map, List.length_zipIdx,
    Text.length_lines (endsLine_withoutMark ha), count_withoutMark]

end Tablature
