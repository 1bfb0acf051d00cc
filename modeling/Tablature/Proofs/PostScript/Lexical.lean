import Tablature.Compile
import Tablature.Proofs.Faces
import Tablature.Proofs.PostScript.Items

/-!
# Which programs are valid

Every text is closed by its own parenthesis, whatever is in it. The name of a font is
one name if and only if it has no white space and no delimiters in it, and a number is
a numeral if and only if it is finite. Nothing else can go wrong: a program with such
fonts falls apart into its tokens and nothing else. Its fonts are those of the first
layout and those that the source names.

* `IsDecimal`, `isDecimal_thousandths_iff`: which numbers are written as numerals;
* `programLexemes`: what a program is meant to be read as;
* `lexemes?_program_iff`: when it is read so;
* `IsValid`, `isValid_iff`: a program that is valid;
* `lexical_of_compile`: the program of a source.
-/

namespace Tablature

/-! ## Numerals -/

/-- A decimal numeral: digits, with a minus sign before them or not, and with a point and more
digits after them or not. -/
def IsDecimal (cs : List Char) : Prop :=
  ∃ minus whole places, cs = minus ++ whole ++ places ∧ (minus = [] ∨ minus = ['-']) ∧
    (whole ≠ [] ∧ ∀ d ∈ whole, Numeral.isDigit d = true) ∧
    (places = [] ∨ ∃ ds, places = '.' :: ds ∧ ds ≠ [] ∧ ∀ d ∈ ds, Numeral.isDigit d = true)

theorem isDecimal_numeral (k : Int) : IsDecimal (numeral k) := by
  have hplaces (n : Nat) : placesText n = [] ∨ ∃ ds, placesText n = '.' :: ds ∧ ds ≠ [] ∧
      ∀ d ∈ ds, Numeral.isDigit d = true := by
    obtain ⟨htext, -⟩ | ⟨htext, hne⟩ := placesText_eq n
    · exact .inl htext
    · exact .inr ⟨writtenPlaces n, htext, hne, fun d hd => isDigit_of_mem_writtenPlaces hd⟩
  have hwhole (n : Nat) : Nat.toDigits 10 n ≠ [] ∧
      ∀ d ∈ Nat.toDigits 10 n, Numeral.isDigit d = true :=
    ⟨Nat.toDigits_ne_nil, fun d hd => Numeral.isDigit_of_mem_toDigits hd⟩
  unfold numeral
  generalize decide (k < 0) = negative
  cases negative with
  | false => exact ⟨[], _, _, rfl, .inl rfl, hwhole _, hplaces _⟩
  | true => exact ⟨['-'], _, _, rfl, .inr rfl, hwhole _, hplaces _⟩

/-- A numeral starts with a digit, if not with a minus sign and then a digit. -/
theorem IsDecimal.exists_digit {cs : List Char} (h : IsDecimal cs) :
    ∃ d rest, Numeral.isDigit d = true ∧ (cs = d :: rest ∨ cs = '-' :: d :: rest) := by
  obtain ⟨minus, whole, places, rfl, hminus, ⟨hne, hwhole⟩, -⟩ := h
  obtain ⟨d, ds, rfl⟩ := List.exists_cons_of_ne_nil hne
  refine ⟨d, ds ++ places, hwhole d List.mem_cons_self, ?_⟩
  obtain rfl | rfl := hminus
  · exact .inl rfl
  · exact .inr rfl

section

open Float.Model Float.Model.UnpackedFloat

/-- A double that is not finite has the exponent field of the infinities. -/
theorem isFinite_of_finite {v : Float} {negative : Bool} {mantissa : Nat} {exponent : Int}
    (h : Binary.ofFloat v = .finite negative mantissa exponent) : v.isFinite = true := by
  have hfield : v.toBits.toNat / Nat.pow 2 52 % Nat.pow 2 11 ≠ 2047 := by
    intro hf
    simp only [Binary.ofFloat, if_pos hf] at h
    split at h <;> cases h
  have he : @unpackExponent .binary64 v.toBits.toBitVec ≠ -1#11 := by
    intro he
    have := congrArg BitVec.toNat he
    simp only [unpackExponent, BitVec.toNat_cast, BitVec.extractLsb, BitVec.extractLsb'_toNat,
      Nat.shiftRight_eq_div_pow] at this
    exact hfield this
  change (UnpackedFloat.unpack .binary64 v.toBits.toBitVec).isFinite = true
  rw [UnpackedFloat.unpack]
  simp only [he, if_false]
  split
  · split <;> rfl
  · rfl

end

/-- What is written for a double that is not finite. -/
theorem toList_thousandths_of_not_isFinite {v : Float} (h : ¬ v.isFinite = true) :
    (thousandths v).toList ∈ [['i', 'n', 'f'], ['-', 'i', 'n', 'f'], ['N', 'a', 'N']] := by
  cases hv : Binary.ofFloat v with
  | finite _ _ _ => exact absurd (isFinite_of_finite hv) h
  | infinite negative =>
    simp only [thousandths, toThreePlaces, hv]
    cases negative <;> decide +kernel
  | undefined =>
    simp only [thousandths, toThreePlaces, hv]
    decide +kernel

/-- A double is written as a numeral if and only if it is finite. -/
theorem isDecimal_thousandths_iff {v : Float} :
    IsDecimal (thousandths v).toList ↔ v.isFinite = true := by
  refine ⟨fun h => ?_, fun h => ?_⟩
  · by_contra hv
    obtain ⟨d, rest, hd, h⟩ := h.exists_digit
    have htext := toList_thousandths_of_not_isFinite hv
    have hne {c : Char} (hc : Numeral.isDigit c = false) : c ≠ d := by
      rintro rfl
      rw [hd] at hc
      cases hc
    have hi : 'i' ≠ d := hne rfl
    have hn : 'N' ≠ d := hne rfl
    have hminus : '-' ≠ d := hne rfl
    simp only [List.mem_cons, List.not_mem_nil, or_false] at htext
    rcases htext with e | e | e <;> rw [e] at h <;> simp [hi, hn, hminus] at h
  · rw [toList_thousandths h]
    exact isDecimal_numeral _

namespace PostScript

/-! ## Tokens -/

/-- Whatever a double is, it is written as one word. -/
theorem spells_thousandths (v : Float) :
    Spells (thousandths v).toList (.word (thousandths v).toList) := by
  by_cases hv : v.isFinite = true
  · rw [toList_thousandths hv]
    exact spells_word (numeral_ne_nil _) fun c => isRegular_of_mem_numeral
  · have htexts : ∀ cs ∈ [['i', 'n', 'f'], ['-', 'i', 'n', 'f'], ['N', 'a', 'N']],
        cs ≠ [] ∧ cs.all isRegular = true := by
      decide +kernel
    obtain ⟨hne, hregular⟩ := htexts _ (toList_thousandths_of_not_isFinite hv)
    exact spells_word hne (List.all_eq_true.1 hregular)

/-- What a token is meant to be read as. -/
def Token.lexeme : Token → Lexeme
  | .operator w => .word w.toList
  | .name n => .name n.toList
  | .number v => .word (thousandths v).toList
  | .string text => .string (escape text.toList)

theorem lexemes?_eq_some {cs : List Char} {ls : List Lexeme} :
    lexemes? cs = some ls ↔ scan .between cs = (ls, .between) := by
  unfold lexemes?
  split
  · rename_i ls' h
    simp [h]
  · rename_i h
    simp only [reduceCtorEq, false_iff]
    exact h ls

theorem toList_string (text : String) :
    (Token.string text).text.toList = '(' :: (escape text.toList ++ [')']) := by
  simp [Token.text]

/-- Every text is closed by its own parenthesis. -/
theorem lexemes?_string (text : String) :
    lexemes? (Token.string text).text.toList = some [.string (escape text.toList)] := by
  have hopen : Mode.between.next '(' = ([], .string 0 []) := rfl
  have hclose : (Mode.string 0 (escape text.toList)).next ')' =
      ([.string (escape text.toList)], .between) := rfl
  rw [lexemes?_eq_some, toList_string, scan, hopen, scan_append, (scan_escape 0 [] _).1]
  simp only [scan, List.nil_append, hclose, List.append_nil]

/-- The operators that commands are written with. -/
def commandOperators : List String :=
  ["newpath", "moveto", "rmoveto", "lineto", "curveto", "arc", "arcn", "setlinewidth", "stroke",
    "fill", "findfont", "scalefont", "setfont", "show", "dup", "pop", "div", "neg", "sub",
    "stringwidth", "setrgbcolor", "showpage"]

theorem mem_commandOperators {c : Command Float} {w : String} (h : .operator w ∈ tokens c) :
    w ∈ commandOperators := by
  unfold commandOperators
  cases c with
  | arc _ _ _ _ _ clockwise filled _ =>
    cases clockwise <;> cases filled <;> simp [tokens, stroke] at h ⊢ <;> grind
  | text _ _ _ _ face align =>
    cases align <;> simp [tokens, selectFont, showText] at h ⊢ <;> grind
  | _ =>
    simp [tokens, stroke] at h ⊢
    grind

/-- The operators of a command are words. -/
theorem isRegular_of_operator_mem_tokens {c : Command Float} {w : String}
    (h : .operator w ∈ tokens c) : w.toList ≠ [] ∧ w.toList.all isRegular = true := by
  have hwords : ∀ w ∈ commandOperators, w.toList ≠ [] ∧ w.toList.all isRegular = true := by
    decide +kernel
  exact hwords w (mem_commandOperators h)

/-- The name in a command is that of the copy of its font. -/
theorem exists_face_of_name_mem_tokens {c : Command Float} {n : String} (h : .name n ∈ tokens c) :
    ∃ f, faceOf? c = some f ∧ n = f ++ latinSuffix := by
  cases c with
  | text _ _ _ _ face align =>
    have hn : n = latinFace face := by
      cases align <;> simpa [tokens, selectFont, showText] using h
    exact ⟨baseFace face, rfl, hn⟩
  | arc _ _ _ _ _ clockwise filled _ => cases filled <;> simp [tokens, stroke] at h
  | _ => simp [tokens, stroke] at h

/-- A token of a command is read as what it is meant to be, if the font of the command has a
name that can be written. -/
theorem spells_of_mem_tokens {c : Command Float}
    (hface : ∀ f ∈ faceOf? c, ∀ ch ∈ f.toList, isRegular ch = true) {t : Token}
    (ht : t ∈ tokens c) : Spells t.text.toList t.lexeme := by
  cases t with
  | operator w =>
    obtain ⟨hne, hregular⟩ := isRegular_of_operator_mem_tokens ht
    exact spells_word hne (List.all_eq_true.1 hregular)
  | name n =>
    obtain ⟨f, hf, rfl⟩ := exists_face_of_name_mem_tokens ht
    have e : (Token.name (f ++ latinSuffix)).text.toList = '/' :: (f ++ latinSuffix).toList :=
      String.toList_append
    rw [e]
    exact spells_name (isRegular_of_mem_latin (hface f hf))
  | number v => exact spells_thousandths v
  | string text =>
    rw [toList_string]
    exact spells_string _

/-! ## Programs -/

/-- Some words in a row. -/
def words (ws : List String) : List Lexeme := ws.map fun w => .word w.toList

/-- What the text that copies a font is read as. -/
def copyFontLexemes : List Lexeme :=
  [words ["findfont", "dup", "length", "dict", "begin"], [.bracket '\x7b'],
    words ["1", "index"], [.name "FID".toList], words ["ne"], [.bracket '\x7b'], words ["def"],
    [.bracket '\x7d', .bracket '\x7b'], words ["pop", "pop"], [.bracket '\x7d'],
    words ["ifelse"], [.bracket '\x7d'], words ["forall"], [.name "Encoding".toList],
    words ["ISOLatin1Encoding", "def", "currentdict", "end"]].flatten

/-- What the definition of a font is meant to be read as. -/
def fontLexemes (face : String) : List Lexeme :=
  [.name face.toList] ++ copyFontLexemes ++ [.name (face ++ latinSuffix).toList] ++
    words ["exch", "definefont", "pop"]

/-- What a program is meant to be read as: its fonts, its tokens, and what shows the last
page. -/
def programLexemes (commands : List (Command Float)) : List Lexeme :=
  (faces commands).flatMap fontLexemes ++
    commands.flatMap (fun c => (tokens c).map Token.lexeme) ++ words ["showpage"]

theorem scan_commandLine {c : Command Float}
    (hface : ∀ f ∈ faceOf? c, ∀ ch ∈ f.toList, isRegular ch = true) :
    scan .between (commandLine c).toList = ((tokens c).map Token.lexeme, .between) := by
  have hrow : List.Forall₂ Spells ((tokens c).map fun t => t.text.toList)
      ((tokens c).map Token.lexeme) := by
    rw [List.forall₂_map_left_iff, List.forall₂_map_right_iff, List.forall₂_same]
    exact fun t => spells_of_mem_tokens hface
  rw [toList_commandLine]
  exact scan_row hrow (by simpa using tokens_ne_nil c)

theorem scan_defineFace {face : String} (h : ∀ c ∈ face.toList, isRegular c = true) :
    scan .between (defineFace face).toList = (fontLexemes face, .between) := by
  have hcopy : scan .between copyFontText = (copyFontLexemes, .between) := by decide +kernel
  have hdefine : scan .between "exch definefont pop\n".toList =
      (words ["exch", "definefont", "pop"], .between) := by
    decide +kernel
  rw [toList_defineFace]
  exact scan_between (scan_between (scan_between (spells_name h ' ' rfl) hcopy)
    (spells_name (isRegular_of_mem_latin h) ' ' rfl)) hdefine

theorem scan_flatMap {β : Type} {f : β → List Char} {g : β → List Lexeme} {bs : List β}
    (h : ∀ b ∈ bs, scan .between (f b) = (g b, .between)) :
    scan .between (bs.flatMap f) = (bs.flatMap g, .between) := by
  induction bs with
  | nil => rfl
  | cons b bs ih =>
    rw [List.flatMap_cons, List.flatMap_cons]
    exact scan_between (h b List.mem_cons_self) (ih fun c hc => h c (List.mem_cons_of_mem _ hc))

/-- A program whose fonts have names that can be written falls apart into its tokens. -/
theorem lexemes?_program {commands : List (Command Float)}
    (h : ∀ f ∈ faces commands, ∀ c ∈ f.toList, isRegular c = true) :
    lexemes? (program commands).toList = some (programLexemes commands) := by
  have hcomment : scan .between "%!PS-Adobe-3.0\n".toList = ([], .between) := by decide +kernel
  have hshow : scan .between "showpage\n".toList = (words ["showpage"], .between) := by
    decide +kernel
  have hfonts := scan_flatMap fun f hf => scan_defineFace (h f hf)
  have hlines : ∀ c ∈ commands,
      scan .between (commandLine c).toList = ((tokens c).map Token.lexeme, .between) :=
    fun c hc => scan_commandLine fun f hf => h f (mem_faces.2 (.inr ⟨c, hc, hf⟩))
  rw [lexemes?_eq_some, toList_program]
  exact scan_between (scan_between (scan_between hcomment hfonts) (scan_flatMap hlines)) hshow

/-! ## Names -/

/-- The word or the name that is being read, if one is, has regular characters only. -/
def Mode.IsRegular : Mode → Prop
  | .word cs | .name cs => ∀ c ∈ cs, PostScript.isRegular c = true
  | _ => True

theorem isRegular_start (c : Char) :
    (Mode.start c).2.IsRegular ∧ ∀ n, .name n ∉ (Mode.start c).1 := by
  unfold Mode.start
  split
  · exact ⟨trivial, nofun⟩
  · rename_i hwhite
    split
    · exact ⟨trivial, nofun⟩
    · split
      · exact ⟨trivial, nofun⟩
      · split
        · exact ⟨nofun, nofun⟩
        · split
          · exact ⟨trivial, fun n h => by cases List.mem_singleton.1 h⟩
          · rename_i hdelimiter
            refine ⟨fun d hd => ?_, nofun⟩
            rw [List.mem_singleton.1 hd]
            simp [isRegular, hwhite, hdelimiter]

theorem isRegular_next {m : Mode} (h : m.IsRegular) (c : Char) :
    (m.next c).2.IsRegular ∧
      ∀ n, .name n ∈ (m.next c).1 → ∀ d ∈ n, isRegular d = true := by
  obtain ⟨hstart, hnone⟩ := isRegular_start c
  have hnil (n : List Char) (hn : .name n ∈ ([] : List Lexeme)) : ∀ d ∈ n, isRegular d = true :=
    absurd hn List.not_mem_nil
  have hconcat {cs : List Char} (hcs : ∀ d ∈ cs, isRegular d = true) (hc : isRegular c = true) :
      ∀ d ∈ cs ++ [c], isRegular d = true := by
    intro d hd
    obtain hd | hd := List.mem_append.1 hd
    · exact hcs d hd
    · rw [List.mem_singleton.1 hd]
      exact hc
  cases m with
  | between => exact ⟨hstart, fun n hn => absurd hn (hnone n)⟩
  | comment =>
    simp only [Mode.next]
    split <;> exact ⟨trivial, hnil⟩
  | word cs =>
    simp only [Mode.next]
    split
    · rename_i hc
      exact ⟨hconcat h hc, hnil⟩
    · refine ⟨hstart, fun n hn => ?_⟩
      obtain hn | hn := List.mem_cons.1 hn
      · cases hn
      · exact absurd hn (hnone n)
  | name cs =>
    simp only [Mode.next]
    split
    · rename_i hc
      exact ⟨hconcat h hc, hnil⟩
    · refine ⟨hstart, fun n hn => ?_⟩
      obtain hn | hn := List.mem_cons.1 hn
      · cases hn
        exact h
      · exact absurd hn (hnone n)
  | string depth body =>
    have hstring (b : List Char) (d : List Char) (hd : .name d ∈ [Lexeme.string b]) : False := by
      cases List.mem_singleton.1 hd
    simp only [Mode.next]
    split
    · exact ⟨trivial, hnil⟩
    · split
      · exact ⟨trivial, hnil⟩
      · split
        · cases depth with
          | zero => exact ⟨trivial, fun n hn => (hstring _ n hn).elim⟩
          | succ depth => exact ⟨trivial, hnil⟩
        · exact ⟨trivial, hnil⟩
  | escaped depth body => exact ⟨trivial, hnil⟩

/-- The names that are read have regular characters only. -/
theorem isRegular_of_name_mem_scan {m : Mode} (hm : m.IsRegular) {cs n : List Char}
    (h : .name n ∈ (scan m cs).1) : ∀ d ∈ n, isRegular d = true := by
  induction cs generalizing m with
  | nil => cases h
  | cons c cs ih =>
    obtain ⟨hnext, hname⟩ := isRegular_next hm c
    obtain h | h := List.mem_append.1 h
    · exact hname n h
    · exact ih hnext h

/-- A program falls apart into its tokens if and only if its fonts have names that can be
written. -/
theorem lexemes?_program_iff {commands : List (Command Float)} :
    lexemes? (program commands).toList = some (programLexemes commands) ↔
      ∀ f ∈ faces commands, ∀ c ∈ f.toList, isRegular c = true := by
  refine ⟨fun h f hf => ?_, lexemes?_program⟩
  have hname : .name f.toList ∈ programLexemes commands :=
    List.mem_append_left _ (List.mem_append_left _
      (List.mem_flatMap.2 ⟨f, hf, by simp [fontLexemes]⟩))
  have hmem : .name f.toList ∈ (scan .between (program commands).toList).1 := by
    rw [lexemes?_eq_some.1 h]
    exact hname
  exact isRegular_of_name_mem_scan (m := .between) trivial hmem

/-! ## Validity -/

/-- A program in which every font name is one name, every number a numeral and every text one
string, and which falls apart into its tokens and nothing else. -/
structure IsValid (commands : List (Command Float)) : Prop where
  names : ∀ f ∈ faces commands, ∀ c ∈ f.toList, isRegular c = true
  numbers : ∀ c ∈ commands, ∀ v, .number v ∈ tokens c → IsDecimal (Token.number v).text.toList
  strings : ∀ c ∈ commands, ∀ text, .string text ∈ tokens c →
    lexemes? (Token.string text).text.toList = some [.string (escape text.toList)]
  lexemes : lexemes? (program commands).toList = some (programLexemes commands)

/-- Its names and its numbers are all that can make a program invalid. -/
theorem isValid_iff {commands : List (Command Float)} :
    IsValid commands ↔ (∀ f ∈ faces commands, ∀ c ∈ f.toList, isRegular c = true) ∧
      ∀ c ∈ commands, ∀ v, .number v ∈ tokens c → v.isFinite = true := by
  constructor
  · intro h
    exact ⟨h.names, fun c hc v hv => isDecimal_thousandths_iff.1 (h.numbers c hc v hv)⟩
  · rintro ⟨hnames, hnumbers⟩
    exact ⟨hnames, fun c hc v hv => isDecimal_thousandths_iff.2 (hnumbers c hc v hv),
      fun _ _ text _ => lexemes?_string text, lexemes?_program hnames⟩

/-! ## The program of a source -/

/-- The font of a face is named in no other characters than the face. -/
theorem mem_of_mem_baseFace {face : String} {c : Char} (h : c ∈ (baseFace face).toList) :
    c ∈ face.toList := by
  unfold baseFace at h
  split at h
  · rename_i base hbase
    rw [List.isSuffixOf?_eq_some_iff_append_eq] at hbase
    rw [String.toList_ofList] at h
    rw [← hbase]
    exact List.mem_append_left _ h
  · exact h

/-- The fonts that a program writes in if its source names none. -/
def initialFaces : List String := ["Times-Roman", "ArialMT", "Zapfino"]

/-- The fonts of a program are those of the first layout and those that its source names. -/
theorem mem_faces_of_render {source : String} {commands : List (Command Float)}
    (h : render source = .ok commands) {f : String} (hf : f ∈ faces commands) :
    f ∈ initialFaces ∨
      ∃ n ∈ Line.tokenize source, ∃ face, n.line.face? = some face ∧ f = baseFace face := by
  have hinitial : ∀ face ∈ signFace :: (Layout.initial : Layout Float).faces,
      baseFace face ∈ initialFaces := by
    decide +kernel
  obtain ⟨d, hd, rfl⟩ := exists_document_of_render h
  obtain rfl | ⟨c, hc, hf⟩ := mem_faces.1 hf
  · exact .inl List.mem_cons_self
  · obtain ⟨face, hface, rfl⟩ : ∃ face, c.face? = some face ∧ f = baseFace face := by
      cases c with
      | text _ _ _ _ face _ => exact ⟨face, rfl, (Option.some.inj hf).symm⟩
      | _ => cases hf
    obtain rfl | hface := Document.mem_faces_of_mem_draw hc hface
    · exact .inl (hinitial _ List.mem_cons_self)
    · obtain hface | ⟨n, hn, hface⟩ := Score.mem_faces_of_parse hd hface
      · exact .inl (hinitial _ (List.mem_cons_of_mem _ hface))
      · exact .inr ⟨n, hn, face, hface, rfl⟩

/-- The program of a source is valid if and only if its fonts have names that can be written, which
they have if the source names no others, and its numbers are finite. Its texts are closed in any
case. -/
theorem lexical_of_compile {source ps : String} (h : compile source = .ok ps) :
    ∃ commands, render source = .ok commands ∧ ps = program commands ∧
      (IsValid commands ↔ (∀ f ∈ faces commands, ∀ c ∈ f.toList, isRegular c = true) ∧
        ∀ c ∈ commands, ∀ v, .number v ∈ tokens c → v.isFinite = true) ∧
      (∀ f ∈ faces commands, f ∈ initialFaces ∨
        ∃ n ∈ Line.tokenize source, ∃ face, n.line.face? = some face ∧ f = baseFace face) ∧
      ((∀ n ∈ Line.tokenize source, ∀ face, n.line.face? = some face →
          ∀ c ∈ face.toList, isRegular c = true) →
        lexemes? ps.toList = some (programLexemes commands)) ∧
      ∀ c ∈ commands, ∀ text, .string text ∈ tokens c →
        lexemes? (Token.string text).text.toList = some [.string (escape text.toList)] := by
  obtain ⟨commands, hrender, rfl⟩ := map_eq_ok.1 h
  have hfaces : ∀ f ∈ faces commands, f ∈ initialFaces ∨
      ∃ n ∈ Line.tokenize source, ∃ face, n.line.face? = some face ∧ f = baseFace face :=
    fun f => mem_faces_of_render hrender
  have hregular : ∀ f ∈ initialFaces, f.toList.all isRegular = true := by decide +kernel
  refine ⟨commands, hrender, rfl, isValid_iff, hfaces, fun hnames => ?_,
    fun _ _ text _ => lexemes?_string text⟩
  refine lexemes?_program fun f hf => ?_
  obtain hf | ⟨n, hn, face, hface, rfl⟩ := hfaces f hf
  · exact List.all_eq_true.1 (hregular f hf)
  · exact fun c hc => hnames n hn face hface c (mem_of_mem_baseFace hc)

/-- Brackets, backslashes and the name of an operator in the texts of a program that is valid. -/
theorem lexical_of_compile_brackets :
    let source := "TITLEFACE Courier-ISOLatin1\nFRETFACE Helvetica\nP-1\n" ++
      "TITLE a) showpage (\\361\\\nS-\n1-) 2-\\(\nR-UD\nBP-1-3"
    ∃ ps, compile source = .ok ps ∧ ∃ commands, render source = .ok commands ∧
      ps = program commands ∧ faces commands = ["Courier", "Helvetica", "Times-Roman"] ∧
      IsValid commands := by
  intro source
  have h : ((render source).toOption.map fun commands => (faces commands,
      commands.all fun c => (tokens c).all fun
        | .number v => v.isFinite
        | _ => true)) = some (["Courier", "Helvetica", "Times-Roman"], true) := by
    decide +kernel
  obtain ⟨commands, hrender, hv⟩ := exists_of_toOption_map h
  obtain ⟨hfaces, hfinite⟩ := Prod.mk.inj hv
  have hcompile : compile source = .ok (program commands) := by rw [compile, hrender]; rfl
  obtain ⟨others, hothers, -, hvalid, -⟩ := lexical_of_compile hcompile
  obtain rfl : commands = others := Except.ok.inj (hrender.symm.trans hothers)
  refine ⟨_, hcompile, commands, hrender, rfl, hfaces, hvalid.2 ⟨?_, ?_⟩⟩
  · have hregular : ∀ f ∈ ["Courier", "Helvetica", "Times-Roman"],
        f.toList.all isRegular = true := by
      decide +kernel
    rw [hfaces]
    exact fun f hf => List.all_eq_true.1 (hregular f hf)
  · exact fun c hc v hv => List.all_eq_true.1 (List.all_eq_true.1 hfinite c hc) _ hv

/-- A face of several words is taken for the name of a font. -/
theorem not_forall_isValid : ¬ ∀ (source ps : String), compile source = .ok ps →
    ∃ commands, render source = .ok commands ∧ ps = program commands ∧ IsValid commands := by
  intro hall
  have h : ((render "TITLEFACE Times New Roman\nP-1\nTITLE Folias").toOption.map faces) =
      some ["Times New Roman", "Times-Roman"] := by
    decide +kernel
  obtain ⟨commands, hrender, hfaces⟩ := exists_of_toOption_map h
  have hcompile : compile "TITLEFACE Times New Roman\nP-1\nTITLE Folias" =
      .ok (program commands) := by
    rw [compile, hrender]
    rfl
  obtain ⟨others, hothers, -, hvalid⟩ := hall _ _ hcompile
  obtain rfl : commands = others := Except.ok.inj (hrender.symm.trans hothers)
  have hblank := hvalid.names "Times New Roman" (by rw [hfaces]; exact List.mem_cons_self) ' '
    (by decide +kernel)
  cases hblank

/-- Lengths that are finite may add up to one that is not. -/
example : ((render "COURSESPACING 1e308\nP-1\nS-").toOption.map fun commands =>
    commands.any fun c => (tokens c).any fun
      | .number v => !v.isFinite
      | _ => false) = some true := by
  decide +kernel

end PostScript

end Tablature
