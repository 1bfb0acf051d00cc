import Mathlib.Data.List.Basic
import Mathlib.Data.List.Pairwise
import Mathlib.Data.List.TakeWhile
import Tablature.Line

/-!
# The table of rules

A line is classified by the first rule that fits it. No text fits two rules of the table,
so which of them comes first does not matter: a line that fits a rule is a line of that
kind.

* `Text.IsTrimmed`, `trim_append`: a text and the blanks at its ends;
* `Pattern.clashes`, `clashes_of_fits`: the patterns that a text may fit at once;
* `classify_of_mem`: a line that fits a rule is of its kind;
* `classifyWith_of_perm`: the same rules in another order;
* `classify_in_any_order`: what the order of the table does not decide.
-/

namespace Tablature

/-! ## Blanks at the ends -/

namespace Text

/-- A text that neither begins nor ends with a blank. -/
structure IsTrimmed (cs : List Char) : Prop where
  head : ∀ c ∈ cs.head?, isBlank c = false
  last : ∀ c ∈ cs.getLast?, isBlank c = false

theorem isTrimmed_nil : IsTrimmed [] where
  head := by simp
  last := by simp

/-- What is put between two texts is not at an end. -/
theorem IsTrimmed.append {as bs : List Char} (has : IsTrimmed as) (hne : as ≠ [])
    (hbs : IsTrimmed bs) (hne' : bs ≠ []) (middle : List Char) :
    IsTrimmed (as ++ (middle ++ bs)) where
  head c hc := by
    obtain ⟨a, as, rfl⟩ := List.exists_cons_of_ne_nil hne
    exact has.head c hc
  last c hc := by
    refine hbs.last c ?_
    rwa [← List.append_assoc, List.getLast?_append_of_ne_nil _ hne'] at hc

/-- Trimming takes the blanks at the ends away and nothing else. -/
theorem trim_append {before cs after : List Char} (hbefore : ∀ c ∈ before, isBlank c = true)
    (hcs : IsTrimmed cs) (hafter : ∀ c ∈ after, isBlank c = true) :
    trim (before ++ (cs ++ after)) = cs := by
  have hreverse : ∀ c ∈ after.reverse, isBlank c = true := by simpa using hafter
  have hlast : ∀ c ∈ cs.reverse.head?, isBlank c = false := by simpa using hcs.last
  have hend : ((cs ++ after).reverse.dropWhile isBlank).reverse = cs := by
    rw [List.reverse_append, (span_append hreverse hlast).2, List.reverse_reverse]
  unfold trim
  cases cs with
  | nil =>
    have hall : ∀ c ∈ before ++ ([] ++ after), isBlank c = true := by
      simpa using List.forall_mem_append.2 ⟨hbefore, hafter⟩
    rw [List.dropWhile_eq_nil_iff.2 hall]
    rfl
  | cons c cs =>
    have hhead : ∀ d ∈ (c :: cs ++ after).head?, isBlank d = false := hcs.head
    rw [(span_append hbefore hhead).2, hend]

theorem IsTrimmed.trim_append {cs after : List Char} (h : IsTrimmed cs)
    (hafter : ∀ c ∈ after, isBlank c = true) : trim (cs ++ after) = cs :=
  Text.trim_append (List.forall_mem_nil _) h hafter

/-- A text is what trimming leaves of it, between blanks. -/
theorem exists_eq_trim (cs : List Char) : ∃ before after, cs = before ++ (trim cs ++ after) ∧
    (∀ c ∈ before, isBlank c = true) ∧ (∀ c ∈ after, isBlank c = true) ∧ IsTrimmed (trim cs) := by
  have htrim : trim cs = ((cs.dropWhile isBlank).reverse.dropWhile isBlank).reverse := rfl
  have hmiddle : cs.dropWhile isBlank =
      trim cs ++ ((cs.dropWhile isBlank).reverse.takeWhile isBlank).reverse := by
    rw [htrim, ← List.reverse_append, List.takeWhile_append_dropWhile, List.reverse_reverse]
  refine ⟨cs.takeWhile isBlank, ((cs.dropWhile isBlank).reverse.takeWhile isBlank).reverse, ?_,
    List.all_eq_true.1 List.all_takeWhile, ?_, ⟨?_, ?_⟩⟩
  · rw [← hmiddle, List.takeWhile_append_dropWhile]
  · intro c hc
    exact List.all_eq_true.1 List.all_takeWhile c (List.mem_reverse.1 hc)
  · intro c hc
    refine head?_dropWhile cs c ?_
    rw [hmiddle, List.head?_append, Option.mem_def.1 hc]
    rfl
  · intro c hc
    rw [htrim, List.getLast?_reverse] at hc
    exact head?_dropWhile _ c hc

theorem trim_eq_nil_iff {cs : List Char} : trim cs = [] ↔ ∀ c ∈ cs, isBlank c = true := by
  constructor
  · intro h
    obtain ⟨before, after, e, hbefore, hafter, -⟩ := exists_eq_trim cs
    rw [h, List.nil_append] at e
    rw [e]
    exact List.forall_mem_append.2 ⟨hbefore, hafter⟩
  · intro h
    simpa using isTrimmed_nil.trim_append h

theorem trim_trim (cs : List Char) : trim (trim cs) = trim cs := by
  obtain ⟨-, -, -, -, -, htrimmed⟩ := exists_eq_trim cs
  simpa using htrimmed.trim_append (List.forall_mem_nil _)

end Text

namespace Line

/-! ## Patterns -/

/-- Whether some text may fit both patterns. -/
def Pattern.clashes : Pattern → Pattern → Bool
  | .keyword s, .keyword t => s.toList.isPrefixOf t.toList || t.toList.isPrefixOf s.toList
  | .keyword s, .nothing | .nothing, .keyword s => s.isEmpty
  | .keyword s, .digit | .digit, .keyword s => s.toList.head?.all Numeral.isDigit
  | .nothing, .digit | .digit, .nothing => false
  | .nothing, .nothing | .digit, .digit => true

/-- A text that fits a pattern. -/
inductive Pattern.Fits (cs : List Char) : Pattern → Prop where
  | keyword {s : String} : s.toList <+: cs → Fits cs (.keyword s)
  | nothing : cs = [] → Fits cs .nothing
  | digit : cs.head?.any Numeral.isDigit = true → Fits cs .digit

theorem Pattern.Fits.of_strip? {p : Pattern} {cs rest : List Char} (h : p.strip? cs = some rest) :
    p.Fits cs := by
  cases p with
  | keyword s => exact .keyword ⟨rest, List.isPrefixOf?_eq_some_iff_append_eq.1 h⟩
  | nothing =>
    obtain ⟨hcs, -⟩ := Option.ite_none_right_eq_some.1 h
    exact .nothing (List.isEmpty_iff.1 hcs)
  | digit =>
    obtain ⟨hcs, -⟩ := Option.ite_none_right_eq_some.1 h
    exact .digit hcs

theorem Pattern.clashes_comm (p q : Pattern) : p.clashes q = q.clashes p := by
  cases p <;> cases q <;> first | rfl | exact Bool.or_comm _ _

/-- Only a keyword of digits, or an empty one, starts a line that starts with a digit. -/
theorem Pattern.clashes_keyword {cs : List Char} {s : String} (hs : s.toList <+: cs) {q : Pattern}
    (hq : q.Fits cs) : (keyword s).clashes q = true := by
  cases hq with
  | keyword ht => simpa [clashes] using List.prefix_or_prefix_of_prefix hs ht
  | nothing hcs =>
    subst hcs
    simpa [clashes] using List.prefix_nil.1 hs
  | digit hcs =>
    obtain ⟨rest, rfl⟩ := hs
    cases h : s.toList with
    | nil => simp [clashes, h]
    | cons c text => simpa [clashes, h] using hcs

theorem Pattern.clashes_of_fits {p q : Pattern} {cs : List Char} (hp : p.Fits cs) (hq : q.Fits cs) :
    p.clashes q = true := by
  cases hp with
  | keyword hs => exact clashes_keyword hs hq
  | nothing hcs =>
    cases hq with
    | keyword ht =>
      rw [clashes_comm]
      exact clashes_keyword ht (.nothing hcs)
    | nothing _ => rfl
    | digit hdigit =>
      rw [hcs] at hdigit
      cases hdigit
  | digit hdigit =>
    cases hq with
    | keyword ht =>
      rw [clashes_comm]
      exact clashes_keyword ht (.digit hdigit)
    | nothing hcs =>
      rw [hcs] at hdigit
      cases hdigit
    | digit _ => rfl

/-- The patterns of the table are told apart by the texts that fit them. -/
theorem Rule.table_pairwise :
    (Rule.table.map Rule.pattern).Pairwise fun p q => p.clashes q = false := by
  decide +kernel

/-! ## Lines -/

theorem findSome?_of_mem {rules : List Rule}
    (hrules : (rules.map Rule.pattern).Pairwise fun p q => p.clashes q = false) {r : Rule}
    (hr : r ∈ rules) {cs : List Char} {line : Line} (h : r.read? cs = some line) :
    (rules.findSome? fun r => r.read? cs) = some line := by
  obtain ⟨as, has, -⟩ := Option.map_eq_some_iff.1 h
  induction rules with
  | nil => cases hr
  | cons q rules ih =>
    obtain ⟨hq, hrules⟩ := List.pairwise_cons.1 hrules
    rw [List.findSome?_cons]
    rcases List.mem_cons.1 hr with rfl | hr
    · rw [h]
    · cases hread : q.read? cs with
      | none => exact ih hrules hr
      | some other =>
        obtain ⟨bs, hbs, -⟩ := Option.map_eq_some_iff.1 hread
        have hclash := Pattern.clashes_of_fits (.of_strip? hbs) (.of_strip? has)
        rw [hq _ (List.mem_map_of_mem hr)] at hclash
        cases hclash

section

variable {rules : List Rule} {text : List Char}

theorem classifyWith_of_mem
    (hrules : (rules.map Rule.pattern).Pairwise fun p q => p.clashes q = false) {r : Rule}
    (hr : r ∈ rules) {line : Line} (h : r.read? (Text.trim text) = some line) :
    classifyWith rules text = line := by
  rw [classifyWith, findSome?_of_mem hrules hr h, Option.getD_some]

theorem classifyWith_of_forall
    (h : ∀ r ∈ rules, r.pattern.strip? (Text.trim text) = none) :
    classifyWith rules text = .ignored := by
  have hnone : (rules.findSome? fun r => r.read? (Text.trim text)) = none := by
    rw [List.findSome?_eq_none_iff]
    intro r hr
    rw [Rule.read?, h r hr, Option.map_none]
  rw [classifyWith, hnone, Option.getD_none]

end

/-- A line that fits a rule is of its kind. -/
theorem classify_of_mem {r : Rule} (hr : r ∈ Rule.table) {text : List Char} {line : Line}
    (h : r.read? (Text.trim text) = some line) : classify text = line :=
  classifyWith_of_mem Rule.table_pairwise hr h

/-- A line that fits no rule is ignored. -/
theorem classify_of_forall {text : List Char}
    (h : ∀ r ∈ Rule.table, r.pattern.strip? (Text.trim text) = none) :
    classify text = .ignored :=
  classifyWith_of_forall h

/-! ## The order of the rules -/

/-- No rule makes a line one that is ignored. -/
theorem Rule.line_ne_ignored {r : Rule} (hr : r ∈ table) (argument : String) :
    r.line argument ≠ .ignored := by
  have hcontent : ∀ r ∈ content, r.line argument ≠ .ignored := by
    simp [content, barline, rhythm]
  have hdirectives : ∀ r ∈ directives, r.line argument ≠ .ignored := by
    simp [directives, flag]
  obtain (hr | hr) | hr := (List.mem_append.1 hr).imp_left List.mem_append.1
  · exact hcontent r hr
  · exact hdirectives r hr
  · obtain ⟨s, -, rfl⟩ := List.mem_map.1 hr
    nofun

/-- A keyword of the table does not begin with another. -/
theorem Rule.keyword_eq_of_prefix {r q : Rule} (hr : r ∈ table) (hq : q ∈ table) {s t : String}
    (hs : r.pattern = .keyword s) (ht : q.pattern = .keyword t) (h : s.toList <+: t.toList) :
    s = t := by
  have hsymm : Std.Symm fun p q : Pattern => p.clashes q = false :=
    ⟨fun p q hpq => (q.clashes_comm p).trans hpq⟩
  have hclash : (Pattern.keyword s).clashes (.keyword t) = true :=
    Pattern.clashes_keyword h (.keyword List.prefix_rfl)
  by_contra hne
  have hne' : r.pattern ≠ q.pattern := by
    rw [hs, ht]
    exact fun e => hne (Pattern.keyword.inj e)
  have hnone := table_pairwise.forall (List.mem_map_of_mem hr) (List.mem_map_of_mem hq) hne'
  rw [hs, ht, hclash] at hnone
  cases hnone

theorem countP_le_one_of_pairwise {β : Type} {p : β → Bool} {bs : List β}
    (h : bs.Pairwise fun a b => p a = true → p b = false) : bs.countP p ≤ 1 := by
  induction bs with
  | nil => exact Nat.zero_le 1
  | cons b bs ih =>
    obtain ⟨hb, hbs⟩ := List.pairwise_cons.1 h
    cases hp : p b with
    | false =>
      rw [List.countP_cons_of_neg (by simp [hp])]
      exact ih hbs
    | true =>
      have hnone : bs.countP p = 0 := List.countP_eq_zero.2 fun c hc => by simp [hb c hc hp]
      rw [List.countP_cons_of_pos hp, hnone]

/-- At most one rule fits. -/
theorem Rule.countP_fits_le_one (cs : List Char) :
    table.countP (fun r => (r.pattern.strip? cs).isSome) ≤ 1 := by
  refine countP_le_one_of_pairwise ((List.pairwise_map.1 table_pairwise).imp ?_)
  intro r q hclash hr
  obtain ⟨rest, hr⟩ := Option.isSome_iff_exists.1 hr
  cases hq : q.pattern.strip? cs with
  | none => rfl
  | some rest' =>
    rw [Pattern.clashes_of_fits (.of_strip? hr) (.of_strip? hq)] at hclash
    cases hclash

/-- The rules in another order make the same of a line. -/
theorem classifyWith_of_perm {rules : List Rule} (h : rules.Perm Rule.table) (text : List Char) :
    classifyWith rules text = classify text := by
  have hrules : (rules.map Rule.pattern).Pairwise fun p q => p.clashes q = false :=
    ((h.map Rule.pattern).pairwise_iff fun hpq => (Pattern.clashes_comm _ _).trans hpq).2
      Rule.table_pairwise
  by_cases hfits : ∃ r ∈ Rule.table, ∃ line, r.read? (Text.trim text) = some line
  · obtain ⟨r, hr, line, hline⟩ := hfits
    rw [classify_of_mem hr hline, classifyWith_of_mem hrules (h.mem_iff.2 hr) hline]
  · have hnone : ∀ r ∈ Rule.table, r.pattern.strip? (Text.trim text) = none := by
      intro r hr
      cases hstrip : r.pattern.strip? (Text.trim text) with
      | none => rfl
      | some rest => exact absurd ⟨r, hr, _, congrArg (Option.map _) hstrip⟩ hfits
    rw [classify_of_forall hnone, classifyWith_of_forall fun r hr => hnone r (h.mem_iff.1 hr)]

/-- What a line is does not depend on the order of the rules. At most one of them fits it, and any
other order of them makes the same of it; a line that fits a rule is of its kind, no keyword being
the beginning of another; and the lines that are ignored are those that fit none. -/
theorem classify_in_any_order (text : List Char) :
    Rule.table.countP (fun r => (r.pattern.strip? (Text.trim text)).isSome) ≤ 1 ∧
    (∀ rules : List Rule, rules.Perm Rule.table → classifyWith rules text = classify text) ∧
    (∀ r ∈ Rule.table, ∀ rest, r.pattern.strip? (Text.trim text) = some rest →
      classify text = r.line (String.ofList (Text.trim rest))) ∧
    (∀ r ∈ Rule.table, ∀ q ∈ Rule.table, ∀ s t, r.pattern = .keyword s → q.pattern = .keyword t →
      s.toList <+: t.toList → s = t) ∧
    (classify text = .ignored ↔
      ∀ r ∈ Rule.table, r.pattern.strip? (Text.trim text) = none) := by
  have hkind : ∀ r ∈ Rule.table, ∀ rest, r.pattern.strip? (Text.trim text) = some rest →
      classify text = r.line (String.ofList (Text.trim rest)) :=
    fun r hr rest hrest => classify_of_mem hr (congrArg (Option.map _) hrest)
  refine ⟨Rule.countP_fits_le_one _, fun rules h => classifyWith_of_perm h text, hkind,
    fun r hr q hq s t hs ht => Rule.keyword_eq_of_prefix hr hq hs ht, fun h r hr => ?_,
    classify_of_forall⟩
  cases hstrip : r.pattern.strip? (Text.trim text) with
  | none => rfl
  | some rest =>
    rw [hkind r hr rest hstrip] at h
    exact absurd h (Rule.line_ne_ignored hr _)

/-- The table from its end, and a line that begins like that of another rule. -/
theorem classify_in_reverse :
    let text := " COMPOSERFACE Times-Italic".toList
    let r := Rule.setting (.face .composer)
    Rule.table.reverse.Perm Rule.table ∧ r ∈ Rule.table ∧
      r.pattern.strip? (Text.trim text) = some "Times-Italic".toList ∧
      Rule.table.countP (fun r => (r.pattern.strip? (Text.trim text)).isSome) ≤ 1 ∧
      classifyWith Rule.table.reverse text = classify text ∧
      classify text = .setting (.face .composer) "Times-Italic" ∧
      classify text ≠ .ignored := by
  intro text r
  obtain ⟨hcount, hperm, hkind, -, -⟩ := classify_in_any_order text
  have hreverse : Rule.table.reverse.Perm Rule.table := List.reverse_perm _
  have hr : r ∈ Rule.table := List.mem_append_right _ (List.mem_map_of_mem (Setting.mem_all _))
  have hstrip : r.pattern.strip? (Text.trim text) = some "Times-Italic".toList := by
    decide +kernel
  have hline : classify text = .setting (.face .composer) "Times-Italic" := by
    rw [hkind r hr _ hstrip]
    decide +kernel
  exact ⟨hreverse, hr, hstrip, hcount, hperm _ hreverse, hline, by rw [hline]; nofun⟩

end Line

end Tablature
