import Tablature.Proofs.RuleTable
import Tablature.Proofs.Source
import Tablature.Proofs.Step

/-!
# Indentation and line ends

A line of a source may be indented, may have blanks behind it, and may have a carriage
return before its line feed, which is one blank more. All of them are gone when the line
is classified, and a mark of byte order in front of the source is gone before that. So a
source is read as the texts of its lines are, whatever stands around them.

* `trim_between`: blanks around a text are trimmed with those at its own ends;
* `classify_between`, `tokenize_eq_withoutReturns`: they do not change the kind of a line,
  and neither does a carriage return;
* `IndentedLine`: a line with the blanks around it, and the source of such lines;
* `tokenize_source`: the numbered lines of that source;
* `parse_of_indented`: it is the document of the bare texts, or has their fault.
-/

namespace Tablature

/-! ## Blanks around a line -/

/-- Blanks put around a text are trimmed with those at its own ends. -/
theorem Text.trim_between {before after : List Char} (hbefore : ∀ c ∈ before, isBlank c = true)
    (hafter : ∀ c ∈ after, isBlank c = true) (cs : List Char) :
    trim (before ++ (cs ++ after)) = trim cs := by
  obtain ⟨left, right, hcs, hleft, hright, htrimmed⟩ := exists_eq_trim cs
  have hsplit : before ++ (cs ++ after) = (before ++ left) ++ (trim cs ++ (right ++ after)) := by
    conv_lhs => rw [hcs]
    simp only [List.append_assoc]
  rw [hsplit]
  exact trim_append (List.forall_mem_append.2 ⟨hbefore, hleft⟩) htrimmed
    (List.forall_mem_append.2 ⟨hright, hafter⟩)

theorem Line.classify_between {before after : List Char}
    (hbefore : ∀ c ∈ before, Text.isBlank c = true) (hafter : ∀ c ∈ after, Text.isBlank c = true)
    (text : List Char) : classify (before ++ (text ++ after)) = classify text := by
  unfold classify classifyWith
  rw [Text.trim_between hbefore hafter]

theorem Text.isBlank_return : isBlank '\r' = true := by decide

/-- The line without the carriage return that may stand at its end. -/
def Text.withoutReturn (line : List Char) : List Char :=
  if line.getLast? = some '\r' then line.dropLast else line

theorem Line.classify_withoutReturn (line : List Char) :
    classify (Text.withoutReturn line) = classify line := by
  unfold Text.withoutReturn
  split
  · rename_i hlast
    have hreturn : ∀ c ∈ ['\r'], Text.isBlank c = true :=
      List.forall_mem_singleton.2 Text.isBlank_return
    conv_rhs => rw [← List.dropLast_append_getLast? _ hlast]
    exact (classify_between (List.forall_mem_nil _) hreturn line.dropLast).symm
  · rfl

/-- Whether a carriage return before a line feed is part of the line or of its end makes no
difference. -/
theorem Line.tokenize_eq_withoutReturns (source : String) :
    tokenize source =
      (((Text.lines (withoutMark source.toList)).map Text.withoutReturn).zipIdx 1).map
        fun (text, n) => ⟨n, classify text⟩ := by
  rw [tokenize, List.zipIdx_map, List.map_map]
  refine List.map_congr_left fun p _ => ?_
  exact congrArg (NumberedLine.mk p.2) (classify_withoutReturn p.1).symm

/-! ## Sources -/

/-- Whether the character is a blank that does not end a line. -/
def Text.isSpacing (c : Char) : Bool := isBlank c && c != '\n'

/-- A line as it stands in a source: its text, the blanks before and behind it, and whether a
carriage return comes before the line feed. -/
structure IndentedLine where
  before : List Char
  text : List Char
  after : List Char
  returns : Bool
  before_spacing : before.all Text.isSpacing = true := by decide
  unbroken : '\n' ∉ text := by decide
  after_spacing : after.all Text.isSpacing = true := by decide

namespace IndentedLine

/-- What stands between the text and the line feed. -/
def ending (l : IndentedLine) : List Char := l.after ++ if l.returns then ['\r'] else []

/-- The line up to its line feed. -/
def written (l : IndentedLine) : List Char := l.before ++ (l.text ++ l.ending)

/-- The text with nothing around it. -/
def bare (l : IndentedLine) : IndentedLine where
  before := []
  text := l.text
  after := []
  returns := false
  unbroken := l.unbroken

/-- The source of some lines, with a mark of byte order in front of it or without. -/
def source (marked : Bool) (lines : List IndentedLine) : String :=
  String.ofList ((if marked then ['\uFEFF'] else []) ++ lines.flatMap fun l => l.written ++ ['\n'])

theorem ending_spacing (l : IndentedLine) : l.ending.all Text.isSpacing = true := by
  rw [ending, List.all_append, l.after_spacing]
  cases l.returns <;> decide

theorem isBlank_of_spacing {cs : List Char} (h : cs.all Text.isSpacing = true) :
    ∀ c ∈ cs, Text.isBlank c = true := fun c hc =>
  (Bool.and_eq_true_iff.1 (List.all_eq_true.1 h c hc)).1

theorem notMem_of_spacing {c : Char} (hc : Text.isSpacing c = false) {cs : List Char}
    (h : cs.all Text.isSpacing = true) : c ∉ cs := fun hmem => by
  rw [List.all_eq_true.1 h c hmem] at hc
  cases hc

theorem unbroken_written (l : IndentedLine) : '\n' ∉ l.written := by
  have hfeed : Text.isSpacing '\n' = false := by decide
  simp only [written, List.mem_append, not_or]
  exact ⟨notMem_of_spacing hfeed l.before_spacing, l.unbroken,
    notMem_of_spacing hfeed l.ending_spacing⟩

theorem classify_written (l : IndentedLine) : Line.classify l.written = Line.classify l.text :=
  Line.classify_between (isBlank_of_spacing l.before_spacing) (isBlank_of_spacing l.ending_spacing)
    l.text

/-- The mark of byte order is no blank, so a line begins with one only if its text does. -/
theorem head?_written {l : IndentedLine} (h : l.text.head? ≠ some '\uFEFF') (cs : List Char) :
    (l.written ++ '\n' :: cs).head? ≠ some '\uFEFF' := by
  have hmark : Text.isSpacing '\uFEFF' = false := by decide
  have hspacing {bs : List Char} (hbs : bs.all Text.isSpacing = true) :
      bs.head? ≠ some '\uFEFF' := fun hhead =>
    notMem_of_spacing hmark hbs (List.mem_of_mem_head? hhead)
  have hbefore := hspacing l.before_spacing
  have hending := hspacing l.ending_spacing
  -- The first character is that of the first part which is not empty, or the line feed.
  simp only [written, List.append_assoc, List.head?_append]
  cases hb : l.before.head? with
  | some c => rwa [hb] at hbefore
  | none =>
    cases ht : l.text.head? with
    | some c => rwa [ht] at h
    | none =>
      cases he : l.ending.head? with
      | some c => rwa [he] at hending
      | none => simp

/-- The mark of byte order in front of a source is the only one that is taken away. -/
theorem withoutMark_source {lines : List IndentedLine}
    (h : ∀ l ∈ lines.head?, l.text.head? ≠ some '\uFEFF') (marked : Bool) :
    Line.withoutMark (source marked lines).toList = lines.flatMap fun l => l.written ++ ['\n'] := by
  rw [source, String.toList_ofList]
  cases marked with
  | true => rfl
  | false =>
    refine withoutMark_eq_self ?_
    cases lines with
    | nil => nofun
    | cons l lines =>
      simp only [List.flatMap_cons, List.append_assoc]
      exact head?_written (h l rfl) _

/-- The lines of a source are those of its texts. -/
theorem tokenize_source {lines : List IndentedLine}
    (h : ∀ l ∈ lines.head?, l.text.head? ≠ some '\uFEFF') (marked : Bool) :
    Line.tokenize (source marked lines) =
      (lines.zipIdx 1).map fun (l, n) => ⟨n, Line.classify l.text⟩ := by
  have hlines : Text.lines (Line.withoutMark (source marked lines).toList) =
      lines.map written := by
    have hunbroken : ∀ line ∈ lines.map written, '\n' ∉ line :=
      List.forall_mem_map.2 fun l _ => l.unbroken_written
    have hwritten := Text.lines_flatMap hunbroken
    rwa [List.flatMap_map, ← withoutMark_source h marked] at hwritten
  rw [Line.tokenize, hlines, List.zipIdx_map, List.map_map]
  exact List.map_congr_left fun p _ => congrArg (NumberedLine.mk p.2) p.1.classify_written

/-- The texts alone are a source in which nothing stands around them. -/
theorem unlines_eq_source (lines : List IndentedLine) :
    Text.unlines (lines.map text) = source false (lines.map bare) := by
  simp [Text.unlines, source, List.flatMap_map, written, ending, bare]

end IndentedLine

namespace Score

variable {α : Type} [Scalar α]

/-- Of a source only the texts of its lines matter. Whatever blanks other than line feeds stand
around them, whether a line is ended by a line feed alone or by a carriage return and a line feed,
and whether the source begins with a mark of byte order, its lines are those that the texts are
classified as, numbered from one; and it is the document, or has the fault, of the texts
alone. -/
theorem parse_of_indented {lines : List IndentedLine}
    (h : ∀ l ∈ lines.head?, l.text.head? ≠ some '\uFEFF') (marked : Bool) :
    Line.tokenize (IndentedLine.source marked lines) =
        (lines.zipIdx 1).map (fun (l, n) => ⟨n, Line.classify l.text⟩) ∧
      (parse (IndentedLine.source marked lines) : Except (Stop α) (Document α)) =
        parse (Text.unlines (lines.map IndentedLine.text)) := by
  have hbare : ∀ l ∈ (lines.map IndentedLine.bare).head?, l.text.head? ≠ some '\uFEFF' := by
    intro l hl
    rw [List.head?_map] at hl
    obtain ⟨k, hk, rfl⟩ := Option.map_eq_some_iff.1 hl
    exact h k hk
  have htokens := IndentedLine.tokenize_source h marked
  refine ⟨htokens, ?_⟩
  unfold parse
  rw [htokens, IndentedLine.unlines_eq_source, IndentedLine.tokenize_source hbare, List.zipIdx_map,
    List.map_map]
  rfl

/-- Lines with blanks of many kinds around them, behind a mark of byte order: a title between
ideographic spaces, notes behind a tab and before two carriage returns, a line of blanks alone, and a
second mark, which is part of its line and not read. -/
theorem parse_of_indented_folias :
    let lines : List IndentedLine :=
      [{ before := [], text := "P-1".toList, after := [], returns := true },
        { before := ['\u3000'], text := "TITLE \u00A0Folias".toList, after := ['\u3000', '\u2028'],
          returns := false },
        { before := [' '], text := "S-".toList, after := ['\u0085'], returns := true },
        { before := ['\t'], text := "C. 1-0\t3-10".toList, after := [' ', '\r'], returns := true },
        { before := ['\u2003'], text := [], after := ['\x0B'], returns := false },
        { before := [], text := "\uFEFF2-0".toList, after := [' '], returns := true }]
    (∀ l ∈ lines.head?, l.text.head? ≠ some '\uFEFF') ∧
      Line.tokenize (IndentedLine.source true lines) =
        [⟨1, .page "1"⟩, ⟨2, .title "Folias"⟩, ⟨3, .stave⟩,
          ⟨4, .notes (some ⟨.crotchet, true⟩) "1-0\t3-10"⟩, ⟨5, .blank⟩, ⟨6, .ignored⟩] ∧
      ∃ d : Document Rat, parse (IndentedLine.source true lines) = .ok d ∧
        parse "P-1\nTITLE \u00A0Folias\nS-\nC. 1-0\t3-10\n\n\uFEFF2-0\n" = .ok d ∧
        d.pages.flatMap (·.staves.map fun v => (v.cursor, v.glyphs.length)) = [(2, 3)] := by
  intro lines
  have hmark : ∀ l ∈ lines.head?, l.text.head? ≠ some '\uFEFF' := by decide
  obtain ⟨htokens, hparse⟩ := parse_of_indented (α := Rat) hmark true
  have hplain : Text.unlines (lines.map IndentedLine.text) =
      "P-1\nTITLE \u00A0Folias\nS-\nC. 1-0\t3-10\n\n\uFEFF2-0\n" := by decide +kernel
  have h : (parse "P-1\nTITLE \u00A0Folias\nS-\nC. 1-0\t3-10\n\n\uFEFF2-0\n").toOption.map
      (fun d : Document Rat =>
        d.pages.flatMap (·.staves.map fun v => (v.cursor, v.glyphs.length))) = some [(2, 3)] := by
    decide +kernel
  obtain ⟨d, hd, hv⟩ := exists_of_toOption_map h
  refine ⟨hmark, ?_, d, ?_, hd, hv⟩
  · rw [htokens]
    decide +kernel
  · rw [hparse, hplain, hd]

end Score

end Tablature
