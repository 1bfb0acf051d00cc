import Tablature.Proofs.Step

/-!
# Which lines are refused

A line other than a note line is refused for one of a few reasons, and which one it
is can be told without writing it: from its text, the last page and the last stave.
Where several things are wrong with a line, the first of these is reported: its
argument cannot be read, there is no page, there is no stave. The range of a
barberpole is read when its stave has been found.

* `Numeral.Writes`, `Meter.IsWritten`, `IsRangeOf`: the arguments that can be read;
* `Line.Unreadable`: what is wrong with an argument;
* `Score.Refused`, `Score.Uncounted`: what is wrong with a line, and what may be wrong with
  the stave of a barberpole;
* `stopped_of_step`, `step_of_refused`: nothing else stops a line, and this does;
* `refused_iff_of_feed`: a line is refused if and only if something is wrong with it;
* `exists_barberpole_uncounted`: a barberpole with which nothing is wrong, and which is stopped.
-/

namespace Tablature

variable {α : Type}

/-! ## Texts -/

namespace Text

theorem cut?_append {d : Char} {a : List Char} (h : d ∉ a) (b : List Char) :
    cut? d (a ++ d :: b) = some (a, b) := by
  induction a with
  | nil => simp [cut?]
  | cons c a ih =>
    have hc : c ≠ d := fun e => h (e ▸ List.mem_cons_self)
    have ha : d ∉ a := fun hd => h (List.mem_cons_of_mem c hd)
    simp [cut?, hc, ih ha]

/-- A text is cut at its first `d`. -/
theorem cut?_eq_some_iff {d : Char} {cs a b : List Char} :
    cut? d cs = some (a, b) ↔ d ∉ a ∧ cs = a ++ d :: b := by
  constructor
  · intro h
    exact ⟨notMem_of_cut? h, eq_append_of_cut? h⟩
  · rintro ⟨ha, rfl⟩
    exact cut?_append ha b

/-- The first word of a text; nothing if it has none. -/
def firstWord (text : String) : List Char := (words text.toList).head?.getD []

end Text

/-- The text writes a whole number of at most `bound`: ASCII digits, after a plus sign or not. -/
def Numeral.Writes (bound : Nat) (cs : List Char) (n : Nat) : Prop :=
  ∃ ds, (cs = ds ∨ cs = '+' :: ds) ∧ ds ≠ [] ∧ (∀ d ∈ ds, isDigit d = true) ∧
    digitsValue ds = n ∧ n ≤ bound

theorem Numeral.count?_eq_some_iff {bound : Nat} {cs : List Char} {n : Nat} :
    count? bound cs = some n ↔ Writes bound cs n := by
  have hdigits (ds : List Char) : (!ds.isEmpty && ds.all isDigit && digitsValue ds ≤ bound) = true ↔
      ds ≠ [] ∧ (∀ d ∈ ds, isDigit d = true) ∧ digitsValue ds ≤ bound := by
    simp [and_assoc]
  unfold count?
  dsimp only
  split
  · rename_i ds
    rw [Option.ite_none_right_eq_some, hdigits, Option.some.injEq]
    constructor
    · rintro ⟨⟨hne, hds, hle⟩, rfl⟩
      exact ⟨ds, .inr rfl, hne, hds, rfl, hle⟩
    · rintro ⟨es, rfl | e, hne, hes, rfl, hle⟩
      · -- A plus sign is no digit.
        exact absurd (hes '+' List.mem_cons_self) (by decide)
      · cases e
        exact ⟨⟨hne, hes, hle⟩, rfl⟩
  · rename_i hplus
    rw [Option.ite_none_right_eq_some, hdigits, Option.some.injEq]
    constructor
    · rintro ⟨⟨hne, hds, hle⟩, rfl⟩
      exact ⟨cs, .inl rfl, hne, hds, rfl, hle⟩
    · rintro ⟨es, rfl | rfl, hne, hes, rfl, hle⟩
      · exact ⟨⟨hne, hes, hle⟩, rfl⟩
      · exact absurd rfl (hplus es)

theorem Numeral.count?_eq_none_iff {bound : Nat} {cs : List Char} :
    count? bound cs = none ↔ ∀ n, ¬ Writes bound cs n := by
  simp only [Option.eq_none_iff_forall_ne_some, ne_eq, count?_eq_some_iff]

/-- How a meter is written: the signs for common time, one figure, or two with a dash between
them. -/
inductive Meter.IsWritten : List Char → Prop where
  | common : IsWritten ['C']
  | cut : IsWritten ['C', '|']
  | single {figure : List Char} : figure ≠ [] → '-' ∉ figure → IsWritten figure
  | fraction {top bottom : List Char} : top ≠ [] → '-' ∉ top → bottom ≠ [] → '-' ∉ bottom →
    IsWritten (top ++ '-' :: bottom)

theorem isWritten_of_splitOn {cs : List Char} {parts : List (List Char)}
    (h : cs.splitOn '-' = parts) (hne : [] ∉ parts) (hlength : parts.length ≤ 2) :
    Meter.IsWritten cs := by
  by_cases hcs : '-' ∈ cs
  · obtain ⟨top, rest, rfl, htop⟩ := List.eq_append_cons_of_mem hcs
    rw [List.splitOn_append_cons_self_of_not_mem htop] at h
    subst h
    have hrest : '-' ∉ rest := by
      intro hrest
      obtain ⟨a, b, rfl, ha⟩ := List.eq_append_cons_of_mem hrest
      rw [List.splitOn_append_cons_self_of_not_mem ha] at hlength
      have := List.length_pos_iff.2 (List.splitOn_ne_nil '-' b)
      simp only [List.length_cons] at hlength
      omega
    rw [List.splitOn_eq_singleton hrest] at hne
    simp only [List.mem_cons, List.not_mem_nil, or_false, not_or] at hne
    exact .fraction (Ne.symm hne.1) htop (Ne.symm hne.2) hrest
  · rw [List.splitOn_eq_singleton hcs] at h
    subst h
    simp only [List.mem_singleton] at hne
    exact .single (Ne.symm hne) hcs

theorem splitOn_of_isWritten {cs : List Char} (h : Meter.IsWritten cs) :
    [] ∉ cs.splitOn '-' ∧ (cs.splitOn '-').length ≤ 2 := by
  cases h with
  | common => decide
  | cut => decide
  | single hne h =>
    rw [List.splitOn_eq_singleton h]
    simpa using Ne.symm hne
  | fraction htop htop' hbottom hbottom' =>
    rw [List.splitOn_append_cons_self_of_not_mem htop', List.splitOn_eq_singleton hbottom']
    simpa using ⟨htop, hbottom⟩

/-! ## Arguments -/

theorem readPageNumber_eq_error_iff {text : String} {r : Refusal} :
    readPageNumber text = .error r ↔
      (∀ n, ¬ Numeral.Writes PageNumber.max (Text.firstWord text) n) ∧
        r = .notAPageNumber (String.ofList (Text.firstWord text)) := by
  rw [← Numeral.count?_eq_none_iff]
  simp only [readPageNumber, Text.firstWord]
  cases Numeral.count? PageNumber.max ((Text.words text.toList).head?.getD []) <;> simp [eq_comm]

theorem readMeter_eq_error_iff {figures : String} {r : Refusal} :
    readMeter figures = .error r ↔
      ¬ Meter.IsWritten figures.toList ∧ r = .unknownMeter figures := by
  unfold readMeter
  split
  · rename_i h
    subst h
    simp [Meter.IsWritten.common]
  · split
    · rename_i h
      subst h
      simp [Meter.IsWritten.cut]
    · split
      · rename_i h
        have h := isWritten_of_splitOn h (by simp) (by simp)
        simp [h]
      · rename_i h
        have h := isWritten_of_splitOn h (by simp) (by simp)
        simp [h]
      · rename_i hsingle hfraction
        have h : ¬ Meter.IsWritten figures.toList := by
          intro h
          obtain ⟨hne, hlength⟩ := splitOn_of_isWritten h
          have hparts := List.splitOn_ne_nil '-' figures.toList
          revert hne hlength hparts hsingle hfraction
          rcases figures.toList.splitOn '-' with
            _ | ⟨_ | ⟨a, as⟩, _ | ⟨_ | ⟨b, bs⟩, _ | ⟨c, cs⟩⟩⟩ <;> simp
        simp [h, eq_comm]

/-- A range of courses: two whole numbers with a dash between them, cut at the first dash. -/
def IsRangeOf (text : List Char) (first last : Nat) : Prop :=
  ∃ a b, '-' ∉ a ∧ text = a ++ '-' :: b ∧ Numeral.Writes Count.max a first ∧
    Numeral.Writes Count.max b last

theorem isRangeOf_iff {cs : List Char} {ends : Nat × Nat} :
    (Text.cut? '-' cs >>= fun p => Numeral.count? Count.max p.1 >>= fun first =>
      Numeral.count? Count.max p.2 >>= fun last => pure (first, last)) = some ends ↔
      IsRangeOf cs ends.1 ends.2 := by
  obtain ⟨first, last⟩ := ends
  simp only [Option.bind_eq_bind, Option.bind_eq_some_iff, Prod.exists, Text.cut?_eq_some_iff,
    Numeral.count?_eq_some_iff, Option.pure_def, Option.some.injEq, Prod.mk.injEq]
  constructor
  · rintro ⟨a, b, ⟨ha, e⟩, _, hfirst, _, hlast, rfl, rfl⟩
    exact ⟨a, b, ha, e, hfirst, hlast⟩
  · rintro ⟨a, b, ha, e, hfirst, hlast⟩
    exact ⟨a, b, ⟨ha, e⟩, _, hfirst, _, hlast, rfl, rfl⟩

theorem readCourseRange_eq_ok_iff {text : String} {ends : Nat × Nat} :
    readCourseRange text = .ok ends ↔ IsRangeOf text.toList ends.1 ends.2 := by
  rw [← isRangeOf_iff]
  unfold readCourseRange
  dsimp only
  split
  · rename_i h
    rw [h]
    simp
  · rename_i h
    rw [h]
    simp

theorem readCourseRange_eq_error_iff {text : String} {r : Refusal} :
    readCourseRange text = .error r ↔
      (∀ first last, ¬ IsRangeOf text.toList first last) ∧ r = .notACourseRange text := by
  cases h : readCourseRange text with
  | ok ends =>
    have hends := readCourseRange_eq_ok_iff.1 h
    constructor
    · nofun
    · rintro ⟨hnone, -⟩
      exact absurd hends (hnone _ _)
  | error e =>
    have hnone (first last : Nat) : ¬ IsRangeOf text.toList first last := by
      intro hr
      have hok : readCourseRange text = .ok (first, last) := readCourseRange_eq_ok_iff.2 hr
      rw [hok] at h
      cases h
    have he : e = .notACourseRange text := by
      unfold readCourseRange at h
      dsimp only at h
      split at h
      · cases h
      · exact (Except.error.inj h).symm
    subst he
    simp [hnone, eq_comm]

/-! ## Directives -/

/-- The first member of a list that has a property. -/
def IsFirst {β : Type} (P : β → Prop) (xs : List β) (x : β) : Prop :=
  P x ∧ ∃ before after, xs = before ++ x :: after ∧ ∀ y ∈ before, ¬ P y

theorem isFirst_cons {β : Type} {P : β → Prop} {y x : β} {ys : List β} :
    IsFirst P (y :: ys) x ↔ (P y ∧ x = y) ∨ (¬ P y ∧ IsFirst P ys x) := by
  constructor
  · rintro ⟨hx, _ | ⟨z, before⟩, after, e, h⟩
    · cases e
      exact .inl ⟨hx, rfl⟩
    · cases e
      exact .inr ⟨h _ List.mem_cons_self, hx, before, after, rfl,
        fun z hz => h z (List.mem_cons_of_mem _ hz)⟩
  · rintro (⟨hy, rfl⟩ | ⟨hy, hx, before, after, rfl, h⟩)
    · exact ⟨hy, [], ys, rfl, nofun⟩
    · refine ⟨hx, y :: before, after, rfl, fun z hz => ?_⟩
      rcases List.mem_cons.1 hz with rfl | hz
      · exact hy
      · exact h z hz

/-- Members are read in order, and the first that cannot be read is reported. -/
theorem mapM_eq_error_iff {ε β γ : Type} {f : β → Except ε γ} {xs : List β} {e : ε} :
    xs.mapM f = .error e ↔ ∃ x, IsFirst (fun x => ∃ e, f x = .error e) xs x ∧ f x = .error e := by
  induction xs with
  | nil => simp [IsFirst, pure, Except.pure]
  | cons y ys ih =>
    rw [List.mapM_cons, bind_eq_error]
    simp only [isFirst_cons]
    cases hy : f y with
    | error e' =>
      simp only [reduceCtorEq, false_and, exists_false, or_false, Except.error.injEq,
        exists_eq', true_and, not_true_eq_false]
      constructor
      · rintro rfl
        exact ⟨y, rfl, hy⟩
      · rintro ⟨x, rfl, hx⟩
        exact Except.error.inj (hy.symm.trans hx)
    | ok c =>
      simp only [reduceCtorEq, false_or, Except.ok.injEq, exists_eq_left', exists_false, false_and,
        not_false_eq_true, true_and, ← ih, bind_eq_error]
      constructor
      · rintro (h | ⟨cs, -, h⟩)
        · exact h
        · cases h
      · exact .inl

/-- What is wrong with the way a course of the tuning is written. -/
inductive MalformedCourse (word : List Char) : Refusal → Prop where
  | emptyPitch : [] ∈ word.splitOn '-' → MalformedCourse word (.emptyPitch (String.ofList word))
  | tooManyStrings : [] ∉ word.splitOn '-' → 2 < (word.splitOn '-').length →
    MalformedCourse word (.tooManyStrings (String.ofList word) (word.splitOn '-').length)

theorem readCourse_eq_error_iff {word : List Char} {r : Refusal} :
    readCourse word = .error r ↔ MalformedCourse word r := by
  have hempty : (word.splitOn '-').any List.isEmpty = true ↔ [] ∈ word.splitOn '-' := by
    simp [List.any_eq_true]
  simp only [readCourse, hempty]
  split
  · rename_i h
    constructor
    · rintro ⟨⟩
      exact .emptyPitch h
    · rintro (_ | ⟨h', -⟩)
      · rfl
      · exact absurd h h'
  · rename_i h
    split
    · rename_i hlength
      constructor
      · rintro ⟨⟩
        exact .tooManyStrings h hlength
      · rintro (h' | _)
        · exact absurd h' h
        · rfl
    · rename_i hlength
      constructor
      · nofun
      · rintro (h' | ⟨-, h'⟩)
        · exact absurd h' h
        · exact absurd h' hlength

/-- An entry of the fret map: a sign and its text with a dash between them, cut at the first
dash. -/
def IsFretPair (word : List Char) : Prop :=
  ∃ sign text, sign ≠ [] ∧ text ≠ [] ∧ '-' ∉ sign ∧ word = sign ++ '-' :: text

theorem readFretPair_eq_error_iff {word : List Char} {r : Refusal} :
    readFretPair word = .error r ↔ ¬ IsFretPair word ∧ r = .notAPair (String.ofList word) := by
  unfold readFretPair
  split
  · rename_i a sign b text h
    obtain ⟨hsign, e⟩ := Text.cut?_eq_some_iff.1 h
    have hpair : IsFretPair word := ⟨a :: sign, b :: text, by simp, by simp, hsign, e⟩
    simp [hpair]
  · rename_i hcut
    have hpair : ¬ IsFretPair word := by
      rintro ⟨_ | ⟨a, sign⟩, _ | ⟨b, text⟩, hne, hne', hsign, rfl⟩
      · exact hne rfl
      · exact hne rfl
      · exact hne' rfl
      · exact hcut a sign b text (Text.cut?_append hsign _)
    simp [hpair, eq_comm]

variable [Scalar α]

theorem readLength_eq_error_iff {cs : List Char} {r : Refusal} :
    (readLength cs : Except Refusal α) = .error r ↔
      (Numeral.read? cs = none ∧ r = .notANumber (String.ofList cs)) ∨
      ∃ n, Numeral.read? cs = some n ∧ (∀ v : α, Scalar.finite? n = some v → ¬ (0.0 : α) ≤ v) ∧
        r = .notALength n := by
  unfold readLength
  cases Numeral.read? cs with
  | none => simp [eq_comm]
  | some n =>
    cases hn : (Scalar.finite? n : Option α) with
    | none => simp [hn, eq_comm]
    | some v =>
      by_cases hv : (0.0 : α) ≤ v
      · simp [hn, hv]
      · simp [hn, hv, eq_comm]

omit [Scalar α] in
theorem readCount_eq_error_iff {cs : List Char} {r : Refusal} :
    readCount cs = .error r ↔
      ((∀ n, ¬ Numeral.Writes Count.max cs n) ∧ r = .notWhole (String.ofList cs)) ∨
      (Numeral.Writes Count.max cs 0 ∧ r = .zero) := by
  rw [← Numeral.count?_eq_none_iff, ← Numeral.count?_eq_some_iff]
  unfold readCount
  cases Numeral.count? Count.max cs with
  | none => simp [eq_comm]
  | some n => cases n <;> simp [eq_comm]

/-- What is wrong with the argument of a line, wherever the line stands. The range of a
barberpole, which is not read before there is a stave, is not among it. -/
inductive Line.Unreadable (α : Type) [Scalar α] : Line → Refusal → Prop where
  | page {text : String} : (∀ n, ¬ Numeral.Writes PageNumber.max (Text.firstWord text) n) →
    Unreadable α (.page text) (.notAPageNumber (String.ofList (Text.firstWord text)))
  | timeSignature {figures : String} : ¬ Meter.IsWritten figures.toList →
    Unreadable α (.timeSignature figures) (.unknownMeter figures)
  | notANumber {s : LengthSetting} {value : String} :
    Numeral.read? (Text.trim value.toList) = none →
    Unreadable α (.setting (.length s) value)
      (.notANumber (String.ofList (Text.trim value.toList)))
  /-- A number that is not finite, or negative. -/
  | notALength {s : LengthSetting} {value : String} {n : Numeral} :
    Numeral.read? (Text.trim value.toList) = some n →
    (∀ v : α, Scalar.finite? n = some v → ¬ (0.0 : α) ≤ v) →
    Unreadable α (.setting (.length s) value) (.notALength n)
  | notWhole {s : CountSetting} {value : String} :
    (∀ n, ¬ Numeral.Writes Count.max (Text.trim value.toList) n) →
    Unreadable α (.setting (.count s) value) (.notWhole (String.ofList (Text.trim value.toList)))
  | zero {s : CountSetting} {value : String} :
    Numeral.Writes Count.max (Text.trim value.toList) 0 →
    Unreadable α (.setting (.count s) value) .zero
  | noFace {s : FaceSetting} {value : String} : Text.trim value.toList = [] →
    Unreadable α (.setting (.face s) value) .noFace
  | noCourses {list : String} : Text.words list.toList = [] →
    Unreadable α (.courses list) .noCourses
  | course {list : String} {word : List Char} {r : Refusal} :
    IsFirst (fun w => ∃ r, MalformedCourse w r) (Text.words list.toList) word →
    MalformedCourse word r → Unreadable α (.courses list) r
  | fretPair {list : String} {word : List Char} :
    IsFirst (fun w => ¬ IsFretPair w) (Text.words list.toList) word →
    Unreadable α (.fretMap list) (.notAPair (String.ofList word))

namespace Layout

theorem set_eq_error_iff {l : Layout α} {s : Setting} {value : String} {r : Refusal} :
    l.set s value = .error r ↔ Line.Unreadable α (.setting s value) r := by
  cases s with
  | length s =>
    simp only [set_length, map_eq_error, readLength_eq_error_iff]
    constructor
    · rintro (⟨h, rfl⟩ | ⟨n, hn, h, rfl⟩)
      · exact .notANumber h
      · exact .notALength hn h
    · rintro (_ | _ | h | ⟨hn, h⟩)
      · exact .inl ⟨h, rfl⟩
      · exact .inr ⟨_, hn, h, rfl⟩
  | count s =>
    simp only [set_count, map_eq_error, readCount_eq_error_iff]
    constructor
    · rintro (⟨h, rfl⟩ | ⟨h, rfl⟩)
      · exact .notWhole h
      · exact .zero h
    · intro h
      cases h with
      | notWhole h => exact .inl ⟨h, rfl⟩
      | zero h => exact .inr ⟨h, rfl⟩
  | face s =>
    simp only [set_face, map_eq_error]
    constructor
    · intro h
      cases hv : Text.trim value.toList with
      | nil =>
        rw [hv] at h
        cases h
        exact .noFace hv
      | cons c cs =>
        rw [hv] at h
        cases h
    · rintro ⟨⟩
      rename_i h
      rw [h]
      rfl

theorem setCourses_eq_error_iff {l : Layout α} {list : String} {r : Refusal} :
    l.setCourses list = .error r ↔ Line.Unreadable α (.courses list) r := by
  have hcourse : (Text.words list.toList).mapM readCourse = .error r ↔
      ∃ w, IsFirst (fun w => ∃ r, MalformedCourse w r) (Text.words list.toList) w ∧
        MalformedCourse w r := by
    rw [mapM_eq_error_iff]
    simp only [readCourse_eq_error_iff]
  rw [setCourses_eq, bind_eq_error, hcourse]
  constructor
  · rintro (⟨w, hfirst, hw⟩ | ⟨courses, hcourses, h⟩)
    · exact .course hfirst hw
    · split at h
      · rename_i hempty
        cases h
        refine .noCourses ?_
        cases hwords : Text.words list.toList with
        | nil => rfl
        | cons w ws =>
          rw [hwords, List.mapM_cons] at hcourses
          obtain ⟨c, -, hcourses⟩ := bind_eq_ok.1 hcourses
          obtain ⟨cs, -, hcourses⟩ := bind_eq_ok.1 hcourses
          cases hcourses
          simp at hempty
      · cases h
  · intro h
    cases h with
    | noCourses h =>
      rw [h]
      exact .inr ⟨[], rfl, rfl⟩
    | course hfirst hw => exact .inl ⟨_, hfirst, hw⟩

theorem setFretMap_eq_error_iff {l : Layout α} {list : String} {r : Refusal} :
    l.setFretMap list = .error r ↔ Line.Unreadable α (.fretMap list) r := by
  have hpair (ws : List (List Char)) : ws.mapM readFretPair = .error r ↔
      ∃ w, IsFirst (fun w => ¬ IsFretPair w) ws w ∧ r = .notAPair (String.ofList w) := by
    rw [mapM_eq_error_iff]
    simp only [readFretPair_eq_error_iff, exists_and_left, exists_eq, and_true]
    refine exists_congr fun w => and_congr_right fun hfirst => ?_
    exact ⟨And.right, fun hr => ⟨hfirst.1, hr⟩⟩
  have htable : Line.Unreadable α (.fretMap list) r ↔
      ∃ w, IsFirst (fun w => ¬ IsFretPair w) (Text.words list.toList) w ∧
        r = .notAPair (String.ofList w) := by
    constructor
    · rintro ⟨⟩
      exact ⟨_, ‹_›, rfl⟩
    · rintro ⟨w, hfirst, rfl⟩
      exact .fretPair hfirst
  rw [htable, ← hpair]
  rw [setFretMap_eq]
  split
  · rename_i h
    rw [h]
    constructor <;> nofun
  · rw [map_eq_error]

end Layout

/-! ## Lines -/

/-- The kinds of line that need a stave to stand on. An empty line does not. -/
def Line.needsStave : Line → Bool
  | timeSignature _ | barline _ _ | barberpole _ | notes _ _ | strum _ | alfabeto _
  | sectionSign => true
  | _ => false

/-- The kinds of line that need a page to stand on. -/
def Line.needsPage : Line → Bool
  | stave | title _ | composer _ => true
  | line => line.needsStave

/-- What is wrong with a line in a score, note lines left aside. Of several reasons for which it
cannot be written the first is given, in the order in which they are listed. -/
inductive Score.Refused (s : Score α) (n : NumberedLine) : Fault α → Prop where
  /-- Its argument cannot be read. -/
  | argument {r : Refusal} : n.line.Unreadable α r →
    Refused s n (.malformedDirective n.number n.line.name r)
  /-- There is no page. -/
  | noPage : (∀ r, ¬ n.line.Unreadable α r) → n.line.needsPage = true → s.document.pages = [] →
    Refused s n (.noPage n.number n.line.name)
  /-- There is no stave on the last page. -/
  | noStave {p : Page α} : (∀ r, ¬ n.line.Unreadable α r) → n.line.needsStave = true →
    s.document.pages.getLast? = some p → p.staves = [] →
    Refused s n (.noStave n.number n.line.name)
  /-- The margins of the last page leave no room for a stave, whatever the layout is now. -/
  | degenerateStave {p : Page α} : n.line = .stave → s.document.pages.getLast? = some p →
    p.width - p.leftMargin - p.rightMargin ≤ 0.0 →
    Refused s n (.degenerateStave p.number (p.width - p.leftMargin - p.rightMargin))
  /-- The range of a barberpole cannot be read. -/
  | range {range : String} {p : Page α} {v : Stave α} : n.line = .barberpole range →
    s.document.pages.getLast? = some p → p.staves.getLast? = some v → range ≠ "" →
    (∀ first last, ¬ IsRangeOf range.toList first last) →
    Refused s n (.malformedDirective n.number "BP-" (.notACourseRange range))
  /-- The stave has not the first course of the range. -/
  | firstCourse {range : String} {first last : Nat} {p : Page α} {v : Stave α} :
    n.line = .barberpole range → s.document.pages.getLast? = some p →
    p.staves.getLast? = some v → IsRangeOf range.toList first last →
    ¬ (1 ≤ first ∧ first ≤ v.courses) → Refused s n (.courseOutOfRange n.number first v.courses)
  /-- The stave has the first course of the range, but not the last. -/
  | lastCourse {range : String} {first last : Nat} {p : Page α} {v : Stave α} :
    n.line = .barberpole range → s.document.pages.getLast? = some p →
    p.staves.getLast? = some v → IsRangeOf range.toList first last →
    1 ≤ first ∧ first ≤ v.courses → ¬ (1 ≤ last ∧ last ≤ v.courses) →
    Refused s n (.courseOutOfRange n.number last v.courses)

/-- Nothing is wrong with a line, but the lines that it is written on cannot be counted: it is for a
barberpole, and the stave is french and has as many courses as can be counted at most. -/
structure Score.Uncounted (s : Score α) (n : NumberedLine) : Prop where
  barberpole : ∃ range, n.line = .barberpole range
  stave : ∃ p, s.document.pages.getLast? = some p ∧ ∃ v, p.staves.getLast? = some v ∧
    v.orientation = .french ∧ Count.max ≤ v.courses
  notRefused : ∀ f, ¬ s.Refused n f

namespace Score

omit [Scalar α] in
theorem argument_eq_error_iff {β : Type} {n : NumberedLine} {x : Except Refusal β} {e : Stop α} :
    argument n x = .error e ↔
      ∃ r, x = .error r ∧ e = .fault (.malformedDirective n.number n.line.name r) := by
  cases x with
  | ok b => constructor <;> nofun
  | error r =>
    change Except.error (refuse n r) = .error e ↔ _
    simp [refuse, eq_comm]

omit [Scalar α] in
theorem pageFor_eq_error_iff {s : Score α} {n : NumberedLine} {e : Stop α} :
    s.pageFor n = .error e ↔ s.document.pages = [] ∧ e = .fault (.noPage n.number n.line.name) := by
  rw [← List.getLast?_eq_none_iff]
  unfold pageFor Document.currentPage?
  cases s.document.pages.getLast? <;> simp [eq_comm]

omit [Scalar α] in
theorem staveFor_eq_error_iff {s : Score α} {n : NumberedLine} {e : Stop α} :
    s.staveFor n = .error e ↔
      (s.document.pages = [] ∧ e = .fault (.noPage n.number n.line.name)) ∨
      ∃ p, s.document.pages.getLast? = some p ∧ p.staves = [] ∧
        e = .fault (.noStave n.number n.line.name) := by
  unfold staveFor
  simp only [bind_eq_error, pageFor_eq_error_iff, pageFor_eq_ok]
  refine or_congr_right (exists_congr fun p => and_congr_right fun _ => ?_)
  rw [← List.getLast?_eq_none_iff]
  unfold Page.currentStave?
  cases p.staves.getLast? <;> simp [eq_comm]

omit [Scalar α] in
theorem checkCourse_eq_ok_iff {v : Stave α} {line course : Nat} {u : Unit} :
    v.checkCourse line course = .ok u ↔ 1 ≤ course ∧ course ≤ v.courses := by
  rw [Stave.checkCourse_eq_ok]
  simp [Grid.hasCourse]

omit [Scalar α] in
theorem checkCourse_eq_error_iff {v : Stave α} {line course : Nat} {e : Stop α} :
    v.checkCourse line course = .error e ↔
      ¬ (1 ≤ course ∧ course ≤ v.courses) ∧
        e = .fault (.courseOutOfRange line course v.courses) := by
  have hcourse : v.hasCourse course = true ↔ 1 ≤ course ∧ course ≤ v.courses := by
    simp [Grid.hasCourse]
  rw [← hcourse]
  unfold Stave.checkCourse
  split
  · rename_i hc
    simp [hc]
  · rename_i hc
    simp [hc, eq_comm]

/-- How a line that is not a note line is stopped: something is wrong with it, or it is for a
barberpole on a stave whose lines cannot be counted. -/
inductive Stopped (s : Score α) (n : NumberedLine) : Stop α → Prop where
  | refused {f : Fault α} : s.Refused n f → Stopped s n (.fault f)
  | uncounted {range : String} {v : Stave α} : n.line = .barberpole range →
    s.document.currentStave? = some v → v.isCountable = false → Stopped s n .overflow

/-- A line whose argument can be read is refused where it finds no page or no stave. -/
theorem stopped_of_staveFor {s : Score α} {n : NumberedLine} {e : Stop α}
    (hr : ∀ r, ¬ n.line.Unreadable α r) (hn : n.line.needsStave = true)
    (h : s.staveFor n = .error e) : s.Stopped n e := by
  have hpage : n.line.needsPage = true := by
    unfold Line.needsPage
    split
    · rfl
    · rfl
    · rfl
    · exact hn
  obtain ⟨hp, rfl⟩ | ⟨p, hp, hv, rfl⟩ := staveFor_eq_error_iff.1 h
  · exact .refused (.noPage hr hpage hp)
  · exact .refused (.noStave hr hn hp hv)

/-- The range of a barberpole is refused if it cannot be read, and then if the stave has not one
of its courses. -/
theorem refused_of_barberpoleRange {s : Score α} {number : Nat} {range : String} {v : Stave α}
    {e : Stop α} (hv : s.document.currentStave? = some v)
    (h : barberpoleRange ⟨number, .barberpole range⟩ v range = .error e) :
    ∃ f, e = .fault f ∧ s.Refused ⟨number, .barberpole range⟩ f := by
  obtain ⟨p, hp, hv⟩ := Option.bind_eq_some_iff.1 hv
  unfold barberpoleRange at h
  split at h
  · cases h
  · rename_i hempty
    obtain h | ⟨⟨first, last⟩, hends, h⟩ := bind_eq_error.1 h
    · obtain ⟨r, hr, rfl⟩ := argument_eq_error_iff.1 h
      obtain ⟨hnone, rfl⟩ := readCourseRange_eq_error_iff.1 hr
      refine ⟨_, rfl, .range rfl hp hv ?_ hnone⟩
      rintro rfl
      exact hempty rfl
    · have hends := readCourseRange_eq_ok_iff.1 (argument_eq_ok.1 hends)
      obtain h | ⟨_, hfirst, h⟩ := bind_eq_error.1 h
      · obtain ⟨hfirst, rfl⟩ := checkCourse_eq_error_iff.1 h
        exact ⟨_, rfl, .firstCourse rfl hp hv hends hfirst⟩
      · have hfirst := checkCourse_eq_ok_iff.1 hfirst
        obtain h | ⟨_, -, h⟩ := bind_eq_error.1 h
        · obtain ⟨hlast, rfl⟩ := checkCourse_eq_error_iff.1 h
          exact ⟨_, rfl, .lastCourse rfl hp hv hends hfirst hlast⟩
        · cases h

/-- A line that is not a note line cannot be written only if something is wrong with it, or with
counting the lines of its stave. -/
theorem stopped_of_step {s : Score α} {n : NumberedLine} {e : Stop α}
    (hn : ∀ rhythm tokens, n.line ≠ .notes rhythm tokens) (h : s.step n = .error e) :
    s.Stopped n e := by
  obtain ⟨number, line⟩ := n
  rw [step_eq] at h
  cases line with
  | page text =>
    obtain ⟨r, hr, rfl⟩ := argument_eq_error_iff.1 (map_eq_error.1 h)
    obtain ⟨hnone, rfl⟩ := readPageNumber_eq_error_iff.1 hr
    exact .refused (.argument (.page hnone))
  | stave =>
    obtain h | ⟨p, hp, h⟩ := bind_eq_error.1 h
    · obtain ⟨hp, rfl⟩ := pageFor_eq_error_iff.1 h
      exact .refused (.noPage nofun rfl hp)
    · rw [map_eq_error, Page.append_eq] at h
      split at h
      · rename_i hlength
        cases h
        exact .refused (.degenerateStave rfl (pageFor_eq_ok.1 hp) hlength)
      · cases h
  | timeSignature figures =>
    obtain h | ⟨m, hm, h⟩ := bind_eq_error.1 h
    · obtain ⟨r, hr, rfl⟩ := argument_eq_error_iff.1 h
      obtain ⟨hwritten, rfl⟩ := readMeter_eq_error_iff.1 hr
      exact .refused (.argument (.timeSignature hwritten))
    · have hr : ∀ r, ¬ Line.Unreadable α (.timeSignature figures) r := by
        intro r hr
        cases hr with
        | timeSignature hwritten =>
          rw [readMeter_eq_error_iff.2 ⟨hwritten, rfl⟩] at hm
          cases hm
      exact stopped_of_staveFor hr rfl (map_eq_error.1 h)
  | barline _ _ | strum _ | alfabeto _ | sectionSign =>
    obtain h | ⟨_, -, h⟩ := bind_eq_error.1 h
    · exact stopped_of_staveFor nofun rfl h
    · cases h
  | barberpole range =>
    obtain h | ⟨v, hv, h⟩ := bind_eq_error.1 h
    · exact stopped_of_staveFor nofun rfl h
    · have hv := staveFor_eq_ok.1 hv
      obtain h | ⟨_, -, h⟩ := bind_eq_error.1 (map_eq_error.1 h)
      · obtain ⟨f, rfl, hf⟩ := refused_of_barberpoleRange hv h
        exact .refused hf
      · split at h
        · cases h
        · rename_i hcount
          cases h
          exact .uncounted rfl hv (by simpa using hcount)
  | notes rhythm tokens => exact absurd rfl (hn rhythm tokens)
  | title text | composer text =>
    obtain ⟨hp, rfl⟩ := pageFor_eq_error_iff.1 (map_eq_error.1 h)
    exact .refused (.noPage nofun rfl hp)
  | blank => cases h
  | setting setting value =>
    obtain ⟨r, hr, rfl⟩ := argument_eq_error_iff.1 (map_eq_error.1 h)
    exact .refused (.argument (Layout.set_eq_error_iff.1 hr))
  | courses list =>
    obtain ⟨r, hr, rfl⟩ := argument_eq_error_iff.1 (map_eq_error.1 h)
    exact .refused (.argument (Layout.setCourses_eq_error_iff.1 hr))
  | fretMap list =>
    obtain ⟨r, hr, rfl⟩ := argument_eq_error_iff.1 (map_eq_error.1 h)
    exact .refused (.argument (Layout.setFretMap_eq_error_iff.1 hr))
  | flag _ | comment | ignored => cases h

/-! ## Refused lines -/

/-- An argument that cannot be read is reported before anything else. -/
theorem step_of_unreadable {s : Score α} {n : NumberedLine} {r : Refusal}
    (h : n.line.Unreadable α r) : s.step n = .error (refuse n r) := by
  obtain ⟨number, line⟩ := n
  have hargument {β : Type} {x : Except Refusal β} (hx : x = .error r) :
      argument (α := α) ⟨number, line⟩ x = .error (refuse ⟨number, line⟩ r) :=
    argument_eq_error_iff.2 ⟨r, hx, rfl⟩
  rw [step_eq]
  cases line with
  | page text =>
    cases h with
    | page h => exact map_eq_error.2 (hargument (readPageNumber_eq_error_iff.2 ⟨h, rfl⟩))
  | timeSignature figures =>
    cases h with
    | timeSignature h =>
      exact bind_eq_error.2 (.inl (hargument (readMeter_eq_error_iff.2 ⟨h, rfl⟩)))
  | setting setting value => exact map_eq_error.2 (hargument (Layout.set_eq_error_iff.2 h))
  | courses list => exact map_eq_error.2 (hargument (Layout.setCourses_eq_error_iff.2 h))
  | fretMap list => exact map_eq_error.2 (hargument (Layout.setFretMap_eq_error_iff.2 h))
  | _ => cases h

/-- The meter is read where its argument is not refused. -/
theorem exists_readMeter {figures : String}
    (h : ∀ r, ¬ Line.Unreadable α (.timeSignature figures) r) :
    ∃ m, readMeter figures = .ok m := by
  cases hm : readMeter figures with
  | ok m => exact ⟨m, rfl⟩
  | error r =>
    obtain ⟨hwritten, rfl⟩ := readMeter_eq_error_iff.1 hm
    exact absurd (.timeSignature hwritten) (h _)

/-- Where a line finds no stave, and its argument can be read, this is what is reported. -/
theorem step_of_staveFor {s : Score α} {n : NumberedLine} {e : Stop α}
    (hr : ∀ r, ¬ n.line.Unreadable α r) (hn : n.line.needsStave = true)
    (h : s.staveFor n = .error e) : s.step n = .error e := by
  obtain ⟨number, line⟩ := n
  rw [step_eq]
  cases line with
  | timeSignature figures =>
    obtain ⟨m, hm⟩ := exists_readMeter hr
    exact bind_eq_error.2 (.inr ⟨m, argument_eq_ok.2 hm, map_eq_error.2 h⟩)
  | barline _ _ | barberpole _ | notes _ _ | strum _ | alfabeto _ | sectionSign =>
    exact bind_eq_error.2 (.inl h)
  | _ => cases hn

theorem step_of_noPage {s : Score α} {n : NumberedLine} (hr : ∀ r, ¬ n.line.Unreadable α r)
    (hn : n.line.needsPage = true) (hp : s.document.pages = []) :
    s.step n = .error (.fault (.noPage n.number n.line.name)) := by
  have hstave : s.staveFor n = .error (.fault (.noPage n.number n.line.name)) :=
    staveFor_eq_error_iff.2 (.inl ⟨hp, rfl⟩)
  have hpage : s.pageFor n = .error (.fault (.noPage n.number n.line.name)) :=
    pageFor_eq_error_iff.2 ⟨hp, rfl⟩
  obtain ⟨number, line⟩ := n
  cases line with
  | stave => rw [step_eq]; exact bind_eq_error.2 (.inl hpage)
  | title _ | composer _ => rw [step_eq]; exact map_eq_error.2 hpage
  | timeSignature _ | barline _ _ | barberpole _ | notes _ _ | strum _ | alfabeto _ | sectionSign =>
    exact step_of_staveFor hr rfl hstave
  | _ => cases hn

theorem step_of_barberpoleRange {s : Score α} {number : Nat} {range : String} {v : Stave α}
    {e : Stop α} (hv : s.document.currentStave? = some v)
    (h : barberpoleRange ⟨number, .barberpole range⟩ v range = .error e) :
    s.step ⟨number, .barberpole range⟩ = .error e := by
  rw [step_of_currentStave rfl hv]
  exact map_eq_error.2 (bind_eq_error.2 (.inl h))

omit [Scalar α] in
/-- A range that can be read is checked course by course. -/
theorem barberpoleRange_of_isRangeOf {n : NumberedLine} {v : Stave α} {range : String}
    {first last : Nat} (h : IsRangeOf range.toList first last) :
    barberpoleRange n v range = (do
      v.checkCourse n.number first
      v.checkCourse n.number last
      return some (first, last)) := by
  have hne : range.isEmpty = false := by
    rw [Bool.eq_false_iff, ne_eq, String.isEmpty_iff]
    rintro rfl
    obtain ⟨a, b, -, e, -⟩ := h
    simp at e
  have hread : argument (α := α) n (readCourseRange range) = .ok (first, last) :=
    argument_eq_ok.2 (readCourseRange_eq_ok_iff.2 h)
  unfold barberpoleRange
  rw [hread, if_neg (by rw [hne]; decide)]
  rfl

theorem step_of_refused {s : Score α} {n : NumberedLine} {f : Fault α} (h : s.Refused n f) :
    s.step n = .error (.fault f) := by
  obtain ⟨number, line⟩ := n
  cases h with
  | argument hr => exact step_of_unreadable hr
  | noPage hr hn hp => exact step_of_noPage hr hn hp
  | noStave hr hn hp hv =>
    exact step_of_staveFor hr hn (staveFor_eq_error_iff.2 (.inr ⟨_, hp, hv, rfl⟩))
  | degenerateStave hn hp hlength =>
    obtain rfl : line = .stave := hn
    rw [step_eq]
    refine bind_eq_error.2 (.inr ⟨_, pageFor_eq_ok.2 hp, map_eq_error.2 ?_⟩)
    rw [Page.append_eq]
    exact if_pos hlength
  | range hn hp hv hne hnone =>
    obtain rfl : line = .barberpole _ := hn
    refine step_of_barberpoleRange (Option.bind_eq_some_iff.2 ⟨_, hp, hv⟩) ?_
    unfold barberpoleRange
    rw [if_neg (by rwa [String.isEmpty_iff])]
    exact bind_eq_error.2 (.inl
      (argument_eq_error_iff.2 ⟨_, readCourseRange_eq_error_iff.2 ⟨hnone, rfl⟩, rfl⟩))
  | firstCourse hn hp hv hends hfirst =>
    obtain rfl : line = .barberpole _ := hn
    refine step_of_barberpoleRange (Option.bind_eq_some_iff.2 ⟨_, hp, hv⟩) ?_
    rw [barberpoleRange_of_isRangeOf hends]
    exact bind_eq_error.2 (.inl (checkCourse_eq_error_iff.2 ⟨hfirst, rfl⟩))
  | lastCourse hn hp hv hends hfirst hlast =>
    obtain rfl : line = .barberpole _ := hn
    refine step_of_barberpoleRange (Option.bind_eq_some_iff.2 ⟨_, hp, hv⟩) ?_
    rw [barberpoleRange_of_isRangeOf hends]
    exact bind_eq_error.2 (.inr ⟨(), checkCourse_eq_ok_iff.2 hfirst,
      bind_eq_error.2 (.inl (checkCourse_eq_error_iff.2 ⟨hlast, rfl⟩))⟩)

/-! ## Lines that cannot be counted -/

/-- The only sum that can be too large is the one for the lines of a barberpole. -/
theorem step_eq_overflow_iff {s : Score α} {n : NumberedLine}
    (hn : ∀ rhythm tokens, n.line ≠ .notes rhythm tokens) :
    s.step n = .error .overflow ↔ s.Uncounted n := by
  constructor
  · intro h
    cases stopped_of_step hn h with
    | uncounted hrange hv hcount =>
      obtain ⟨p, hp, hv⟩ := Option.bind_eq_some_iff.1 hv
      refine ⟨⟨_, hrange⟩, ⟨p, hp, _, hv, ?_⟩, fun f hf => ?_⟩
      · rw [Bool.eq_false_iff, ne_eq, Grid.isCountable_iff] at hcount
        simpa using hcount
      · rw [step_of_refused hf] at h
        cases h
  · rintro ⟨⟨range, hrange⟩, ⟨p, hp, v, hv, horientation, hcourses⟩, hrefused⟩
    obtain ⟨number, line⟩ := n
    obtain rfl : line = .barberpole range := hrange
    have hv : s.document.currentStave? = some v := Option.bind_eq_some_iff.2 ⟨p, hp, hv⟩
    have hcount : ¬ v.isCountable = true := fun h =>
      absurd (Grid.isCountable_iff.1 h horientation) (Nat.not_lt.2 hcourses)
    rw [step_of_currentStave rfl hv, map_eq_error]
    cases h : barberpoleRange ⟨number, .barberpole range⟩ v range with
    | ok ends => exact bind_eq_error.2 (.inr ⟨ends, h, if_neg hcount⟩)
    | error e =>
      obtain ⟨f, -, hf⟩ := refused_of_barberpoleRange hv h
      exact absurd hf (hrefused f)

/-- A line that is not a note line is refused if and only if something is wrong with it, and what
is reported is the first thing that is. Where nothing is, the line is written, unless it is one for
a barberpole whose lines cannot be counted. -/
theorem refused_iff_of_feed {s : Score α} {n : NumberedLine}
    (hn : ∀ rhythm tokens, n.line ≠ .notes rhythm tokens) (f : Fault α) :
    ((s.feed n).2 = some (.fault f) ↔ s.Refused n f) ∧
      ((s.feed n).2 = some .overflow ↔ s.Uncounted n) := by
  rw [feed_snd_eq_some, feed_snd_eq_some]
  refine ⟨⟨fun h => ?_, step_of_refused⟩, step_eq_overflow_iff hn⟩
  cases stopped_of_step hn h with
  | refused hf => exact hf

/-- Both courses of the range are wrong, and the first of them is reported. -/
theorem refused_outer_courses :
    let s : Score Rat := empty.feedAll (Line.tokenize "P-1\nS-")
    let n : NumberedLine := ⟨3, .barberpole "9-0"⟩
    let f : Fault Rat := .courseOutOfRange 3 9 5
    (∀ rhythm tokens, n.line ≠ .notes rhythm tokens) ∧
      ((s.feed n).2 = some (.fault f) ↔ s.Refused n f) ∧ s.Refused n f ∧ ¬ s.Uncounted n := by
  intro s n f
  have hn : ∀ rhythm tokens, n.line ≠ .notes rhythm tokens := nofun
  have hf : (s.feed n).2 = some (.fault f) := by decide +kernel
  obtain ⟨hrefused, huncounted⟩ := refused_iff_of_feed hn f
  refine ⟨hn, hrefused, hrefused.1 hf, fun h => ?_⟩
  rw [huncounted.2 h] at hf
  cases hf

/-- Nothing is wrong with a barberpole on a stave, and yet it cannot be written: the lines of a
french stave with so many courses cannot be counted. -/
theorem exists_barberpole_uncounted : ∃ (s : Score Rat) (n : NumberedLine),
    s = empty.feedAll
        (Line.tokenize "FRENCH\nNUMBEROFCOURSES 18446744073709551615\nP-1\nS-") ∧
      n.line = .barberpole "" ∧ (∀ f, ¬ s.Refused n f) ∧ (s.feed n).2 = some .overflow := by
  have hoverflow : (((empty : Score Rat).feedAll
      (Line.tokenize "FRENCH\nNUMBEROFCOURSES 18446744073709551615\nP-1\nS-")).feed
        ⟨5, .barberpole ""⟩).2 = some .overflow := by
    decide +kernel
  refine ⟨_, ⟨5, .barberpole ""⟩, rfl, rfl, fun f hf => ?_, hoverflow⟩
  have hrefused := feed_snd_eq_some.2 (step_of_refused hf)
  rw [hoverflow] at hrefused
  cases hrefused

end Score

end Tablature
