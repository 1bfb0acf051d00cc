import Tablature.Proofs.Change
import Tablature.Proofs.Numerals
import Tablature.Proofs.Refused
import Tablature.Proofs.RuleTable

/-!
# Setting lines

A setting line is a keyword, a space and a value. The layout is seen here as one value for
each setting and a rest that no setting changes, so that a line that is obeyed can be said
to store its value and to leave everything else. A keyword with no value behind it is not
read as a setting at all, though the setting would refuse it.

* `Layout.value`, `Layout.unset`, `ext_of_value`: the layout by its settings;
* `Setting.Denotes`, `Setting.Refuses`: the values that a setting takes and those it does
  not;
* `Layout.Stores`, `set_eq_ok_iff`: a value is stored and nothing else changes;
* `Line.classify_setting`, `classify_keyword`: how a setting line is read;
* `Score.feed_setting`: what a setting line does.
-/

namespace Tablature

variable {α : Type}

/-! ## The layout by its settings -/

/-- The value of a setting. -/
inductive Setting.Value (α : Type) where
  | length (v : α)
  | count (n : Nat)
  | face (name : String)

namespace Layout

/-- What a setting is set to; nothing for a height that has not been set. -/
def value (l : Layout α) : Setting → Option (Setting.Value α)
  | .length .pageWidth => some (.length l.pageWidth)
  | .length .pageHeight => some (.length l.pageHeight)
  | .length .topMargin => some (.length l.topMargin)
  | .length .bottomMargin => some (.length l.bottomMargin)
  | .length .leftMargin => some (.length l.leftMargin)
  | .length .rightMargin => some (.length l.rightMargin)
  | .length .staveSeparation => some (.length l.staveSeparation)
  | .length .courseSpacing => some (.length l.courseSpacing)
  | .length .barlineSpacing => some (.length l.barlineSpacing)
  | .length .barberpoleSpacing => some (.length l.barberpoleSpacing)
  | .length .titleSize => some (.length l.titleStyle.size)
  | .length .titleHeight => l.titleHeight.map .length
  | .length .composerSize => some (.length l.composerStyle.size)
  | .length .composerHeight => l.composerHeight.map .length
  | .length .fretSize => some (.length l.fretStyle.size)
  | .length .courseSize => some (.length l.courseStyle.size)
  | .length .barlineSize => some (.length l.barlineStyle.size)
  | .count .slots => some (.count l.slots)
  | .count .numberOfCourses => some (.count l.numberOfCourses)
  | .face .title => some (.face l.titleStyle.face)
  | .face .composer => some (.face l.composerStyle.face)
  | .face .fret => some (.face l.fretStyle.face)
  | .face .course => some (.face l.courseStyle.face)
  | .face .barline => some (.face l.barlineStyle.face)

/-- What no setting changes. -/
def unset (l : Layout α) :=
  (l.courses, l.showCourses, l.justified, l.tickRadius, l.sectionSize, l.alfabetoFace,
    l.alfabetoSize, l.fretMap, l.mapFrets, l.orientation)

/-- The values of the settings and the rest are all that there is of a layout. -/
theorem ext_of_value {l k : Layout α} (h : ∀ s, l.value s = k.value s) (hrest : l.unset = k.unset) :
    l = k := by
  have hall : ∀ s ∈ Setting.all, l.value s = k.value s := fun s _ => h s
  obtain ⟨_, _, _, _, _, _, _, _, _, _, _, ⟨_, _⟩, _, _, _, _, ⟨_, _⟩, _, ⟨_, _⟩, _, ⟨_, _⟩, _,
    ⟨_, _⟩⟩ := l
  obtain ⟨_, _, _, _, _, _, _, _, _, _, _, ⟨_, _⟩, _, _, _, _, ⟨_, _⟩, _, ⟨_, _⟩, _, ⟨_, _⟩, _,
    ⟨_, _⟩⟩ := k
  have hlength : Function.Injective (Setting.Value.length : α → Setting.Value α) := fun _ _ e =>
    Setting.Value.length.inj e
  simp only [Setting.all, List.forall_mem_cons, value, Option.some.injEq,
    Setting.Value.length.injEq, Setting.Value.count.injEq, Setting.Value.face.injEq,
    (Option.map_injective hlength).eq_iff] at hall
  simp only [unset, Prod.mk.injEq] at hrest
  simp [hall, hrest]

/-- The setting has the value in the second layout, which is otherwise the first. -/
structure Stores (s : Setting) (v : Setting.Value α) (l k : Layout α) : Prop where
  value : k.value s = some v
  others : ∀ j, j ≠ s → k.value j = l.value j
  unset : k.unset = l.unset

theorem Stores.unique {s : Setting} {v : Setting.Value α} {l k k' : Layout α}
    (h : Stores s v l k) (h' : Stores s v l k') : k = k' := by
  refine ext_of_value (fun j => ?_) (h.unset.trans h'.unset.symm)
  by_cases hj : j = s
  · rw [hj, h.value, h'.value]
  · rw [h.others j hj, h'.others j hj]

theorem Stores.of_value {s : Setting} {v : Setting.Value α} {l k : Layout α}
    (h : ∀ j, k.value j = if j = s then some v else l.value j) (hrest : k.unset = l.unset) :
    Stores s v l k where
  value := by rw [h, if_pos rfl]
  others j hj := by rw [h, if_neg hj]
  unset := hrest

theorem stores_setLength (l : Layout α) (v : α) (s : LengthSetting) :
    Stores (.length s) (.length v) l (l.setLength v s) := by
  refine .of_value (fun j => ?_) (by cases s <;> rfl)
  cases s <;> rcases j with j | j | j <;> cases j <;> rfl

theorem stores_setCount (l : Layout α) (n : Nat) (s : CountSetting) :
    Stores (.count s) (.count n) l (l.setCount n s) := by
  refine .of_value (fun j => ?_) (by cases s <;> rfl)
  cases s <;> rcases j with j | j | j <;> cases j <;> rfl

theorem stores_setFace (l : Layout α) (face : String) (s : FaceSetting) :
    Stores (.face s) (.face face) l (l.setFace face s) := by
  refine .of_value (fun j => ?_) (by cases s <;> rfl)
  cases s <;> rcases j with j | j | j <;> cases j <;> rfl

end Layout

/-! ## The values that settings take -/

section

variable [Scalar α]

/-- The value that a text denotes for a setting: a length that is finite and not negative, a count
that is not zero, or any name for a font. -/
inductive Setting.Denotes : Setting → List Char → Setting.Value α → Prop where
  | length {s : LengthSetting} {cs : List Char} {n : Numeral} {v : α} : Numeral.IsWritten cs n →
    Scalar.finite? n = some v → (0.0 : α) ≤ v → Denotes (.length s) cs (.length v)
  | count {s : CountSetting} {cs : List Char} {n : Nat} : Numeral.Writes Count.max cs n → n ≠ 0 →
    Denotes (.count s) cs (.count n)
  | face {s : FaceSetting} {cs : List Char} : cs ≠ [] →
    Denotes (.face s) cs (.face (String.ofList cs))

/-- What is wrong with a text that denotes no value for a setting. -/
inductive Setting.Refuses (α : Type) [Scalar α] (cs : List Char) : Setting → Refusal → Prop where
  | notANumber {s : LengthSetting} : (∀ n, ¬ Numeral.IsWritten cs n) →
    Refuses α cs (.length s) (.notANumber (String.ofList cs))
  | notFinite {s : LengthSetting} {n : Numeral} : Numeral.IsWritten cs n →
    (Scalar.finite? n : Option α) = none → Refuses α cs (.length s) (.notALength n)
  | negative {s : LengthSetting} {n : Numeral} {v : α} : Numeral.IsWritten cs n →
    Scalar.finite? n = some v → ¬ (0.0 : α) ≤ v → Refuses α cs (.length s) (.notALength n)
  | notWhole {s : CountSetting} : (∀ n, ¬ Numeral.Writes Count.max cs n) →
    Refuses α cs (.count s) (.notWhole (String.ofList cs))
  | zero {s : CountSetting} : Numeral.Writes Count.max cs 0 → Refuses α cs (.count s) .zero
  | missing {s : FaceSetting} : cs = [] → Refuses α cs (.face s) .noFace

theorem Line.unreadable_setting_iff {s : Setting} {value : String} {r : Refusal} :
    Line.Unreadable α (.setting s value) r ↔ s.Refuses α (Text.trim value.toList) r := by
  constructor
  · intro h
    cases h with
    | notANumber hread => exact .notANumber (Numeral.read?_eq_none_iff.1 hread)
    | @notALength s value n hread hv =>
      have hn := Numeral.read?_eq_some_iff.1 hread
      cases hfinite : (Scalar.finite? n : Option α) with
      | none => exact .notFinite hn hfinite
      | some v => exact .negative hn hfinite (hv v hfinite)
    | notWhole hcount => exact .notWhole hcount
    | zero hcount => exact .zero hcount
    | noFace hvalue => exact .missing hvalue
  · intro h
    cases h with
    | notANumber hn => exact .notANumber (Numeral.read?_eq_none_iff.2 hn)
    | notFinite hn hfinite =>
      refine .notALength (Numeral.read?_eq_some_iff.2 hn) fun v hv => ?_
      rw [hfinite] at hv
      cases hv
    | negative hn hfinite hv =>
      refine .notALength (Numeral.read?_eq_some_iff.2 hn) fun w hw => ?_
      rw [hfinite] at hw
      cases hw
      exact hv
    | notWhole hcount => exact .notWhole hcount
    | zero hcount => exact .zero hcount
    | missing hvalue => exact .noFace hvalue

theorem readLength_eq_ok_iff {cs : List Char} {v : α} : readLength cs = .ok v ↔
    ∃ n, Numeral.IsWritten cs n ∧ Scalar.finite? n = some v ∧ (0.0 : α) ≤ v := by
  simp only [← Numeral.read?_eq_some_iff]
  unfold readLength
  cases Numeral.read? cs with
  | none => simp
  | some n =>
    cases hn : (Scalar.finite? n : Option α) with
    | none => simp [hn]
    | some w =>
      by_cases hw : (0.0 : α) ≤ w
      · simp only [hw, if_true, Except.ok.injEq, Option.some.injEq, exists_eq_left', hn]
        exact ⟨fun h => ⟨h, h ▸ hw⟩, And.left⟩
      · simp only [hw, if_false, reduceCtorEq, Option.some.injEq, exists_eq_left', hn, false_iff,
          not_and]
        rintro rfl
        exact hw

omit [Scalar α] in
theorem readCount_eq_ok_iff {cs : List Char} {n : Nat} :
    readCount cs = .ok n ↔ Numeral.Writes Count.max cs n ∧ n ≠ 0 := by
  rw [← Numeral.count?_eq_some_iff]
  unfold readCount
  cases Numeral.count? Count.max cs with
  | none => simp
  | some m =>
    cases m with
    | zero => simp [eq_comm]
    | succ m =>
      simp only [Except.ok.injEq, Option.some.injEq]
      exact ⟨fun h => ⟨h, h ▸ Nat.succ_ne_zero m⟩, And.left⟩

omit [Scalar α] in
theorem readFace_eq_ok_iff {cs : List Char} {name : String} :
    readFace cs = .ok name ↔ cs ≠ [] ∧ name = String.ofList cs := by
  cases cs <;> simp [readFace, eq_comm]

namespace Layout

/-- A setting takes the value that the text denotes, and nothing else changes. -/
theorem set_eq_ok_iff {l k : Layout α} {s : Setting} {text : String} :
    l.set s text = .ok k ↔ ∃ v, s.Denotes (Text.trim text.toList) v ∧ Stores s v l k := by
  constructor
  · intro h
    cases s with
    | length s =>
      rw [set_length] at h
      obtain ⟨v, hv, rfl⟩ := map_eq_ok.1 h
      obtain ⟨n, hn, hfinite, hle⟩ := readLength_eq_ok_iff.1 hv
      exact ⟨_, .length hn hfinite hle, stores_setLength l v s⟩
    | count s =>
      rw [set_count] at h
      obtain ⟨n, hn, rfl⟩ := map_eq_ok.1 h
      obtain ⟨hwrites, hne⟩ := readCount_eq_ok_iff.1 hn
      exact ⟨_, .count hwrites hne, stores_setCount l n s⟩
    | face s =>
      rw [set_face] at h
      obtain ⟨name, hname, rfl⟩ := map_eq_ok.1 h
      obtain ⟨hne, rfl⟩ := readFace_eq_ok_iff.1 hname
      exact ⟨_, .face hne, stores_setFace l _ s⟩
  · rintro ⟨v, hv, hk⟩
    cases hv with
    | @length s _ n v hn hfinite hle =>
      rw [hk.unique (stores_setLength l v s), set_length]
      exact map_eq_ok.2 ⟨v, readLength_eq_ok_iff.2 ⟨n, hn, hfinite, hle⟩, rfl⟩
    | @count s _ n hwrites hne =>
      rw [hk.unique (stores_setCount l n s), set_count]
      exact map_eq_ok.2 ⟨n, readCount_eq_ok_iff.2 ⟨hwrites, hne⟩, rfl⟩
    | @face s _ hne =>
      rw [hk.unique (stores_setFace l _ s), set_face]
      exact map_eq_ok.2 ⟨_, readFace_eq_ok_iff.2 ⟨hne, rfl⟩, rfl⟩

/-- A setting refuses a text if something is wrong with it. -/
theorem set_eq_error_iff_refuses {l : Layout α} {s : Setting} {text : String} {r : Refusal} :
    l.set s text = .error r ↔ s.Refuses α (Text.trim text.toList) r :=
  set_eq_error_iff.trans Line.unreadable_setting_iff

end Layout

end

/-! ## Reading the line -/

namespace Line

/-- A keyword alone is no line of any kind. -/
theorem strip?_keyword (s : Setting) :
    ∀ r ∈ Rule.table, r.pattern.strip? s.keyword.toList = none := by
  have hall : ∀ s ∈ Setting.all, ∀ r ∈ Rule.table, r.pattern.strip? s.keyword.toList = none := by
    decide +kernel
  exact hall s s.mem_all

theorem keyword_ne_nil (s : Setting) : s.keyword.toList ≠ [] := by
  have hall : ∀ s ∈ Setting.all, s.keyword.toList ≠ [] := by decide +kernel
  exact hall s s.mem_all

theorem isTrimmed_keyword (s : Setting) : Text.IsTrimmed s.keyword.toList := by
  have hall : ∀ s ∈ Setting.all, (s.keyword.toList.any Text.isBlank) = false := by
    decide +kernel
  have hs : ∀ c ∈ s.keyword.toList, Text.isBlank c = false := by
    simpa using hall s s.mem_all
  exact ⟨fun c hc => hs c (List.mem_of_mem_head? hc), fun c hc => hs c (List.mem_of_getLast? hc)⟩

/-- A keyword with nothing but blanks behind it is ignored. -/
theorem classify_keyword (s : Setting) {value : List Char}
    (h : ∀ c ∈ value, Text.isBlank c = true) :
    classify (s.keyword.toList ++ value) = .ignored := by
  refine classify_of_forall ?_
  rw [(isTrimmed_keyword s).trim_append h]
  exact strip?_keyword s

theorem read?_setting (s : Setting) (rest : List Char) :
    (Rule.setting s).read? (s.keyword.toList ++ ' ' :: rest) =
      some (.setting s (String.ofList (Text.trim rest))) := by
  have hstrip : (Rule.setting s).pattern.strip? (s.keyword.toList ++ ' ' :: rest) = some rest := by
    refine List.isPrefixOf?_eq_some_iff_append_eq.2 ?_
    simp
  rw [Rule.read?, hstrip]
  rfl

/-- A keyword with a value behind it is a line of its setting. -/
theorem classify_setting (s : Setting) {value : List Char}
    (h : ∃ c ∈ value, Text.isBlank c = false) :
    classify (s.keyword.toList ++ ' ' :: value) = .setting s (String.ofList (Text.trim value)) := by
  have hvalue : Text.trim value ≠ [] := by simpa [Text.trim_eq_nil_iff] using h
  obtain ⟨before, after, e, hbefore, hafter, htrimmed⟩ := Text.exists_eq_trim value
  -- the line keeps the blanks in front of the value, and the rule takes them away
  have hline : Text.trim (s.keyword.toList ++ ' ' :: value) =
      s.keyword.toList ++ ' ' :: (before ++ Text.trim value) := by
    have htext := (isTrimmed_keyword s).append (keyword_ne_nil s) htrimmed hvalue (' ' :: before)
    have htrim := htext.trim_append hafter
    nth_rewrite 1 [e]
    simpa using htrim
  have hrest : Text.trim (before ++ Text.trim value) = Text.trim value := by
    simpa using Text.trim_append hbefore htrimmed (List.forall_mem_nil _)
  have hrule : Rule.setting s ∈ Rule.table :=
    List.mem_append_right _ (List.mem_map_of_mem s.mem_all)
  refine classify_of_mem hrule ?_
  rw [hline, read?_setting, hrest]

end Line

/-! ## What the line does -/

variable [Scalar α]

namespace Score

/-- What a line does that gives a setting a value. Behind a keyword there has to be a value, or the
line is ignored, whatever the setting; then the value is stored and nothing else changes, or
something is wrong with it, and it is reported and has no effect. -/
theorem feed_setting (s : Score α) (number : Nat) (setting : Setting) (value : List Char) :
    let n : NumberedLine := ⟨number, Line.classify (setting.keyword.toList ++ ' ' :: value)⟩
    ((∀ c ∈ value, Text.isBlank c = true) → n.line = .ignored ∧ s.feed n = (s, none)) ∧
    ((∃ c ∈ value, Text.isBlank c = false) →
      n.line = .setting setting (String.ofList (Text.trim value)) ∧
      (∀ e, (s.feed n).2 = some e ↔ ∃ r, setting.Refuses α (Text.trim value) r ∧
        e = .fault (.malformedDirective number setting.keyword r)) ∧
      ((s.feed n).2 ≠ none → (s.feed n).1 = s) ∧
      ((s.feed n).2 = none → ∃ v l, setting.Denotes (Text.trim value) v ∧
        s.layout.Stores setting v l ∧ (s.feed n).1 = { s with layout := l })) := by
  intro n
  constructor
  · intro h
    have hline : n = ⟨number, .ignored⟩ := by
      have hblank : ∀ c ∈ ' ' :: value, Text.isBlank c = true := by simpa using ⟨by decide, h⟩
      exact congrArg _ (Line.classify_keyword setting hblank)
    rw [hline]
    exact ⟨rfl, rfl⟩
  · intro h
    have hline : n = ⟨number, .setting setting (String.ofList (Text.trim value))⟩ :=
      congrArg _ (Line.classify_setting setting h)
    have htrim : Text.trim (String.ofList (Text.trim value)).toList = Text.trim value := by
      rw [String.toList_ofList, Text.trim_trim]
    have herror (r : Refusal) : setting.Refuses α (Text.trim value) r ↔
        s.layout.set setting (String.ofList (Text.trim value)) = .error r := by
      rw [Layout.set_eq_error_iff_refuses, htrim]
    rw [hline, feed_of_isOffPage s rfl]
    simp only [Layout.obey, herror]
    refine ⟨trivial, ?_⟩
    cases hset : s.layout.set setting (String.ofList (Text.trim value)) with
    | error r => exact ⟨by simp [refuse, Line.name, eq_comm], fun _ => rfl, by simp⟩
    | ok l =>
      obtain ⟨v, hv, hl⟩ := Layout.set_eq_ok_iff.1 hset
      rw [htrim] at hv
      exact ⟨by simp, fun hf => absurd rfl hf, fun _ => ⟨v, l, hv, hl, rfl⟩⟩

/-- A margin between blanks, no courses, and no font. -/
theorem feed_setting_with_and_without :
    let s : Score Rat := empty
    let margin : NumberedLine := ⟨1, Line.classify "LEFTMARGIN \t1.5e2 ".toList⟩
    let courses : NumberedLine := ⟨2, Line.classify "NUMBEROFCOURSES 0".toList⟩
    let font : NumberedLine := ⟨3, Line.classify "TITLEFACE ".toList⟩
    (∃ v l, Setting.Denotes (.length .leftMargin) "1.5e2".toList v ∧
      s.layout.Stores (.length .leftMargin) v l ∧ (s.feed margin).1 = { s with layout := l }) ∧
    (∃ r, Setting.Refuses Rat ['0'] (.count .numberOfCourses) r ∧
      (s.feed courses).2 = some (.fault (.malformedDirective 2 "NUMBEROFCOURSES" r))) ∧
    font.line = .ignored ∧ s.feed font = (s, none) := by
  intro s margin courses font
  have hmargin : ∃ c ∈ "\t1.5e2 ".toList, Text.isBlank c = false := ⟨'1', by decide, by decide⟩
  have hcourses : ∃ c ∈ ['0'], Text.isBlank c = false := ⟨'0', by decide, by decide⟩
  have hobeyed : (s.feed margin).2 = none := by decide +kernel
  have hfault : (s.feed courses).2 =
      some (.fault (.malformedDirective 2 "NUMBEROFCOURSES" .zero)) := by
    decide +kernel
  obtain ⟨r, hr, e⟩ :=
    (((feed_setting s 2 (.count .numberOfCourses) ['0']).2 hcourses).2.1 _).1 hfault
  refine ⟨?_, ⟨r, hr, hfault.trans (congrArg some e)⟩, ?_⟩
  · exact ((feed_setting s 1 (.length .leftMargin) "\t1.5e2 ".toList).2 hmargin).2.2.2 hobeyed
  · exact (feed_setting s 3 (.face .title) []).1 nofun

/-- A count refuses a missing value, but a line without one is no line of the setting. -/
theorem exists_setting_ignored :
    ∃ (setting : Setting) (value : String), '\n' ∉ value.toList ∧
      (Layout.initial : Layout Rat).set setting value = .error (.notWhole "") ∧
      Line.classify (setting.keyword.toList ++ ' ' :: value.toList) ≠
        .setting setting (String.ofList (Text.trim value.toList)) ∧
      (empty : Score Rat).feed
        ⟨1, Line.classify (setting.keyword.toList ++ ' ' :: value.toList)⟩ = (empty, none) := by
  refine ⟨.count .slots, "", by decide, rfl, ?_, ?_⟩
  · decide +kernel
  · decide +kernel

end Score

end Tablature
