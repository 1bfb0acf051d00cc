import Tablature.Proofs.PostScript.Machine

/-!
# The items of a program

A program is read as it is written: token by token, line by line, font by font.

* `Token.Reads`: the item that is read where a token is written;
* `reads_tokens`, `items?_commandLine`: the items of a command;
* `items?_defineFace`: the items of the definition of a font;
* `items?_program`: the items of a program.
-/

namespace Tablature

/-- The numbers that a command holds. -/
def Command.numbers {α : Type} : Command α → List α
  | .line x₁ y₁ x₂ y₂ width => [x₁, y₁, x₂, y₂, width]
  | .arc x y radius start stop _ _ width => [x, y, radius, start, stop, width]
  | .curve x₁ y₁ x₂ y₂ x₃ y₃ width => [x₁, y₁, x₂, y₂, x₃, y₃, width]
  | .text _ x y size _ _ => [x, y, size]
  | .colour red green blue => [red, green, blue]
  | .pageBreak => []

namespace PostScript

/-- A command with finite numbers, the font of which has a name that can be written. -/
structure Printable (c : Command Float) : Prop where
  finite : ∀ v ∈ c.numbers, v.isFinite = true
  face : ∀ face ∈ faceOf? c, ∀ ch ∈ face.toList, isRegular ch = true

instance (c : Command Float) : Decidable (Printable c) :=
  decidable_of_iff (c.numbers.all Float.isFinite = true ∧
      (faceOf? c).all (fun face => face.toList.all isRegular) = true) <| by
    simp only [List.all_eq_true, Option.all_eq_true]
    exact ⟨fun h => ⟨h.1, h.2⟩, fun h => ⟨h.finite, h.face⟩⟩

/-! ## Texts -/

theorem items?_eq_some {cs : List Char} {is : List Item} :
    items? cs = some is ↔ ∃ ls, scan .between cs = (ls, .between) ∧ ls.map Lexeme.item = is := by
  unfold items? lexemes?
  split
  · rename_i ls h
    simp [h]
  · rename_i h
    simp only [Option.map_none, reduceCtorEq, false_iff, not_exists, not_and]
    exact fun ls hls => absurd hls (h ls)

/-- Texts that end between two lexemes are read one after the other. -/
theorem items?_append {cs ds : List Char} {is js : List Item} (h : items? cs = some is)
    (h' : items? ds = some js) : items? (cs ++ ds) = some (is ++ js) := by
  obtain ⟨ls, hls, rfl⟩ := items?_eq_some.1 h
  obtain ⟨ls', hls', rfl⟩ := items?_eq_some.1 h'
  exact items?_eq_some.2 ⟨ls ++ ls', scan_between hls hls', List.map_append⟩

theorem items?_flatMap {β : Type} {f : β → List Char} {g : β → List Item} {bs : List β}
    (h : ∀ b ∈ bs, items? (f b) = some (g b)) :
    items? (bs.flatMap f) = some (bs.flatMap g) := by
  induction bs with
  | nil => rfl
  | cons b bs ih =>
    rw [List.flatMap_cons, List.flatMap_cons]
    exact items?_append (h b List.mem_cons_self) (ih fun c hc => h c (List.mem_cons_of_mem _ hc))

/-- A text that spells a lexeme, with a blank after it. -/
theorem Spells.items? {cs : List Char} {l : Lexeme} (h : Spells cs l) :
    items? (cs ++ [' ']) = some [l.item] :=
  items?_eq_some.2 ⟨[l], h ' ' rfl, rfl⟩

/-! ## Tokens -/

/-- The copy of a font has a name that can be written if the font has one. -/
theorem isRegular_of_mem_latin {face : String} (h : ∀ c ∈ face.toList, isRegular c = true) :
    ∀ c ∈ (face ++ latinSuffix).toList, isRegular c = true := by
  have hsuffix : ∀ c ∈ latinSuffix.toList, isRegular c = true :=
    List.all_eq_true.1 (by decide +kernel)
  intro c hc
  rw [String.toList_append] at hc
  exact (List.mem_append.1 hc).elim (h c) (hsuffix c)

theorem isRegular_of_mem_numeral {k : Int} {c : Char} (h : c ∈ numeral k) :
    isRegular c = true := by
  obtain rfl | rfl | h := mem_numeral h
  · rfl
  · rfl
  · exact isRegular_of_isDigit h

namespace Token

/-- The item that is read where a token is written. -/
def Reads (t : Token) (i : Item) : Prop := ∃ l, Spells t.text.toList l ∧ l.item = i

theorem reads_operator (o : Operator) : Reads (operator o.word) (.operator o) := by
  have hword : ∀ o ∈ Operator.all, o.word.toList ≠ [] ∧ o.word.toList.all isRegular = true ∧
      (Lexeme.word o.word.toList).item = .operator o := by
    decide +kernel
  obtain ⟨hne, hregular, hitem⟩ := hword o o.mem_all
  exact ⟨_, spells_word hne (List.all_eq_true.1 hregular), hitem⟩

theorem reads_name {n : String} (h : ∀ c ∈ n.toList, isRegular c = true) :
    Reads (name n) (.name n.toList) := by
  have e : (name n).text.toList = '/' :: n.toList := String.toList_append
  refine ⟨.name n.toList, ?_, rfl⟩
  rw [e]
  exact spells_name h

theorem reads_number {v : Float} (h : v.isFinite = true) :
    Reads (number v) (.number (inThousandths v)) := by
  have e : (number v).text.toList = numeral (inThousandths v) := toList_thousandths h
  refine ⟨.word (numeral (inThousandths v)), ?_, ?_⟩
  · rw [e]
    exact spells_word (numeral_ne_nil _) fun c => isRegular_of_mem_numeral
  · simp only [Lexeme.item, readThousandths?_numeral]

theorem reads_string (text : String) : Reads (string text) (.string (escape text.toList)) := by
  have e : (string text).text.toList = '(' :: (escape text.toList ++ [')']) := by
    simp [Token.text]
  refine ⟨.string (escape text.toList), ?_, rfl⟩
  rw [e]
  exact spells_string _

end Token

/-- The items of a row of tokens with blanks between them and a line break at the end. -/
theorem items?_row {ts : List Token} {is : List Item} (h : List.Forall₂ Token.Reads ts is)
    (hne : ts ≠ []) :
    items? (List.intercalate [' '] (ts.map fun t => t.text.toList) ++ ['\n']) = some is := by
  have hls : ∃ ls, List.Forall₂ Spells (ts.map fun t => t.text.toList) ls ∧
      ls.map Lexeme.item = is := by
    clear hne
    induction h with
    | nil => exact ⟨[], .nil, rfl⟩
    | cons h _ ih =>
      obtain ⟨l, hl, rfl⟩ := h
      obtain ⟨ls, hls, rfl⟩ := ih
      exact ⟨l :: ls, .cons hl hls, rfl⟩
  obtain ⟨ls, hls, e⟩ := hls
  exact items?_eq_some.2 ⟨ls, scan_row hls (by simpa using hne), e⟩

/-! ## Commands -/

/-- An item that changes the stack. -/
def onStack (o : StackOperator) : Item := .operator (.stack o)

/-- An item that draws, or prepares to. -/
def onPage (o : PaintOperator) : Item := .operator (.paint o)

/-- The item of a number. -/
def num (v : Float) : Item := .number (inThousandths v)

def strokeItems (width : Float) : List Item := [num width, onPage .setLineWidth, onPage .stroke]

def selectFontItems (face : String) (size : Float) : List Item :=
  [.name (latinFace face).toList, onStack .findFont, num size, onStack .scaleFont,
    onPage .setFont]

def showTextItems (text : String) (x y : Float) : Align → List Item
  | .left =>
    [onPage .newPath, num x, num y, onPage .moveTo, .string (escape text.toList),
      onPage .showText]
  | .centre =>
    [num x, num y, onPage .moveTo, .string (escape text.toList), onStack .dup,
      onStack .stringWidth, onStack .pop, num 2.0, onStack .div, onStack .neg, num 0.0,
      onPage .moveBy, onPage .showText]
  | .right =>
    [num x, .string (escape text.toList), onStack .stringWidth, onStack .pop, onStack .sub, num y,
      onPage .moveTo, .string (escape text.toList), onPage .showText]

/-- The items of a command. -/
def commandItems : Command Float → List Item
  | .line x₁ y₁ x₂ y₂ width =>
    [onPage .newPath, num x₁, num y₁, onPage .moveTo, num x₂, num y₂, onPage .lineTo] ++
      strokeItems width
  | .arc x y radius start stop clockwise filled width =>
    [onPage .newPath, num x, num y, num radius, num start, num stop, onPage (.arc clockwise)] ++
      if filled then [onPage .fill] else strokeItems width
  | .curve x₁ y₁ x₂ y₂ x₃ y₃ width =>
    [onPage .newPath, num x₁, num y₁, onPage .moveTo, num x₁, num y₁, num x₂, num y₂, num x₃,
      num y₃, onPage .curveTo] ++ strokeItems width
  | .text text x y size face align => selectFontItems face size ++ showTextItems text x y align
  | .colour red green blue => [num red, num green, num blue, onPage .setColour]
  | .pageBreak => [onPage .showPage]

section

open Token

theorem reads_onStack (o : StackOperator) : Reads (operator o.word) (onStack o) :=
  reads_operator (.stack o)

theorem reads_onPage (o : PaintOperator) : Reads (operator o.word) (onPage o) :=
  reads_operator (.paint o)

theorem reads_stroke {width : Float} (h : width.isFinite = true) :
    List.Forall₂ Reads (stroke width) (strokeItems width) := by
  simp only [stroke, strokeItems, List.forall₂_cons]
  exact ⟨reads_number h, reads_onPage .setLineWidth, reads_onPage .stroke, .nil⟩

theorem reads_selectFont {face : String} {size : Float}
    (hface : ∀ c ∈ (baseFace face).toList, isRegular c = true) (hsize : size.isFinite = true) :
    List.Forall₂ Reads (selectFont face size) (selectFontItems face size) := by
  simp only [selectFont, selectFontItems, List.forall₂_cons]
  exact ⟨reads_name (isRegular_of_mem_latin hface), reads_onStack .findFont, reads_number hsize,
    reads_onStack .scaleFont, reads_onPage .setFont, .nil⟩

theorem reads_showText (text : String) {x y : Float} (hx : x.isFinite = true)
    (hy : y.isFinite = true) (align : Align) :
    List.Forall₂ Reads (showText text x y align) (showTextItems text x y align) := by
  cases align with
  | left =>
    simp only [showText, showTextItems, List.forall₂_cons]
    exact ⟨reads_onPage .newPath, reads_number hx, reads_number hy, reads_onPage .moveTo,
      reads_string text, reads_onPage .showText, .nil⟩
  | centre =>
    have htwo : (2.0 : Float).isFinite = true := by decide +kernel
    have hzero : (0.0 : Float).isFinite = true := by decide +kernel
    simp only [showText, showTextItems, List.forall₂_cons]
    exact ⟨reads_number hx, reads_number hy, reads_onPage .moveTo, reads_string text,
      reads_onStack .dup, reads_onStack .stringWidth, reads_onStack .pop, reads_number htwo,
      reads_onStack .div, reads_onStack .neg, reads_number hzero, reads_onPage .moveBy,
      reads_onPage .showText, .nil⟩
  | right =>
    simp only [showText, showTextItems, List.forall₂_cons]
    exact ⟨reads_number hx, reads_string text, reads_onStack .stringWidth, reads_onStack .pop,
      reads_onStack .sub, reads_number hy, reads_onPage .moveTo, reads_string text,
      reads_onPage .showText, .nil⟩

/-- The items of a command are read where its tokens are written. -/
theorem reads_tokens {c : Command Float} (h : Printable c) :
    List.Forall₂ Reads (tokens c) (commandItems c) := by
  have hfinite := h.finite
  cases c with
  | line x₁ y₁ x₂ y₂ width =>
    simp only [Command.numbers, List.forall_mem_cons] at hfinite
    obtain ⟨hx₁, hy₁, hx₂, hy₂, hwidth, -⟩ := hfinite
    refine List.rel_append ?_ (reads_stroke hwidth)
    simp only [List.forall₂_cons]
    exact ⟨reads_onPage .newPath, reads_number hx₁, reads_number hy₁, reads_onPage .moveTo,
      reads_number hx₂, reads_number hy₂, reads_onPage .lineTo, .nil⟩
  | arc x y radius start stop clockwise filled width =>
    simp only [Command.numbers, List.forall_mem_cons] at hfinite
    obtain ⟨hx, hy, hradius, hstart, hstop, hwidth, -⟩ := hfinite
    refine List.rel_append ?_ ?_
    · simp only [List.forall₂_cons]
      exact ⟨reads_onPage .newPath, reads_number hx, reads_number hy, reads_number hradius,
        reads_number hstart, reads_number hstop, reads_onPage (.arc clockwise), .nil⟩
    · cases filled with
      | true => exact .cons (reads_onPage .fill) .nil
      | false => exact reads_stroke hwidth
  | curve x₁ y₁ x₂ y₂ x₃ y₃ width =>
    simp only [Command.numbers, List.forall_mem_cons] at hfinite
    obtain ⟨hx₁, hy₁, hx₂, hy₂, hx₃, hy₃, hwidth, -⟩ := hfinite
    refine List.rel_append ?_ (reads_stroke hwidth)
    simp only [List.forall₂_cons]
    exact ⟨reads_onPage .newPath, reads_number hx₁, reads_number hy₁, reads_onPage .moveTo,
      reads_number hx₁, reads_number hy₁, reads_number hx₂, reads_number hy₂, reads_number hx₃,
      reads_number hy₃, reads_onPage .curveTo, .nil⟩
  | text text x y size face align =>
    simp only [Command.numbers, List.forall_mem_cons] at hfinite
    obtain ⟨hx, hy, hsize, -⟩ := hfinite
    exact List.rel_append (reads_selectFont (h.face _ rfl) hsize) (reads_showText text hx hy align)
  | colour red green blue =>
    simp only [Command.numbers, List.forall_mem_cons] at hfinite
    obtain ⟨hred, hgreen, hblue, -⟩ := hfinite
    simp only [tokens, commandItems, List.forall₂_cons]
    exact ⟨reads_number hred, reads_number hgreen, reads_number hblue, reads_onPage .setColour,
      .nil⟩
  | pageBreak => exact .cons (reads_onPage .showPage) .nil

end

theorem tokens_ne_nil (c : Command Float) : tokens c ≠ [] := by
  cases c with
  | text text x y size face align => cases align <;> simp [tokens, selectFont]
  | _ => simp [tokens]

theorem toList_commandLine (c : Command Float) : (commandLine c).toList =
    List.intercalate [' '] ((tokens c).map fun t => t.text.toList) ++ ['\n'] := by
  simp [commandLine, String.toList_intercalate, Function.comp_def]

theorem items?_commandLine {c : Command Float} (h : Printable c) :
    items? (commandLine c).toList = some (commandItems c) := by
  rw [toList_commandLine]
  exact items?_row (reads_tokens h) (tokens_ne_nil c)

/-! ## Fonts -/

/-- The items of the text that copies a font with another encoding. -/
def copyFontItems : List Item :=
  [onStack .findFont, onStack .dup, onStack .length, onStack .dict, onStack .beginDict,
    .openProcedure, .number 1000, .unknown, .name "FID".toList, .unknown, .openProcedure,
    onStack .define, .closeProcedure, .openProcedure, onStack .pop, onStack .pop, .closeProcedure,
    .unknown, .closeProcedure, onStack .forAll, .name "Encoding".toList,
    onStack .latinEncoding, onStack .define, onStack .currentDict, onStack .endDict]

/-- The items of the definition of a font. -/
def fontItems (face : String) : List Item :=
  [.name face.toList] ++ copyFontItems ++ [.name (face ++ latinSuffix).toList] ++
    [onStack .exch, onStack .defineFont, onStack .pop]

/-- What copies the font that has just been named, under another encoding. -/
def copyFontText : List Char :=
  "findfont dup length dict begin ".toList ++
    "\x7b 1 index /FID ne \x7bdef\x7d \x7bpop pop\x7d ifelse \x7d forall\n".toList ++
    "/Encoding ISOLatin1Encoding def currentdict end\n".toList

theorem toList_defineFace (face : String) : (defineFace face).toList =
    ('/' :: face.toList ++ [' ']) ++ copyFontText ++
      ('/' :: (face ++ latinSuffix).toList ++ [' ']) ++ "exch definefont pop\n".toList := by
  have hname : "/".toList = ['/'] := rfl
  have hfind : " findfont dup length dict begin ".toList =
      ' ' :: "findfont dup length dict begin ".toList := by decide +kernel
  have hexch : " exch definefont pop\n".toList = ' ' :: "exch definefont pop\n".toList := by
    decide +kernel
  unfold defineFace copyFontText
  simp only [String.toList_append, hname, hfind, hexch, List.append_assoc, List.cons_append,
    List.nil_append]

theorem items?_defineFace {face : String} (h : ∀ c ∈ face.toList, isRegular c = true) :
    items? (defineFace face).toList = some (fontItems face) := by
  have hcopy : items? copyFontText = some copyFontItems := by decide +kernel
  have hdefine : items? "exch definefont pop\n".toList =
      some [onStack .exch, onStack .defineFont, onStack .pop] := by
    decide +kernel
  rw [toList_defineFace]
  exact items?_append (items?_append (items?_append (spells_name h).items? hcopy)
    (spells_name (isRegular_of_mem_latin h)).items?) hdefine

/-- The copy of a font names the font. -/
theorem baseFace_append (font : String) : baseFace (font ++ latinSuffix) = font := by
  have h : latinSuffix.toList.isSuffixOf? (font ++ latinSuffix).toList = some font.toList := by
    rw [List.isSuffixOf?_eq_some_iff_append_eq, String.toList_append]
  rw [baseFace, h]
  exact String.ofList_toList

theorem mem_insertFace {face f : String} {fs : List String} :
    f ∈ insertFace face fs ↔ f = face ∨ f ∈ fs := by
  induction fs with
  | nil => simp [insertFace]
  | cons g fs ih =>
    rw [insertFace]
    split
    · exact List.mem_cons
    · split
      · rename_i h
        subst h
        simp
      · rw [List.mem_cons, ih, List.mem_cons, or_left_comm]

/-- The fonts of a program are those that its commands use, and one more. -/
theorem mem_faces {commands : List (Command Float)} {f : String} :
    f ∈ faces commands ↔ f = defaultFace ∨ ∃ c ∈ commands, faceOf? c = some f := by
  have hfold (fs gs : List String) :
      f ∈ fs.foldl (fun gs g => insertFace g gs) gs ↔ f ∈ gs ∨ f ∈ fs := by
    induction fs generalizing gs with
    | nil => simp
    | cons g fs ih =>
      rw [List.foldl_cons, ih, mem_insertFace, List.mem_cons, or_assoc, or_left_comm]
  rw [faces, hfold, List.mem_singleton, List.mem_filterMap]

/-! ## Programs -/

theorem toList_program (commands : List (Command Float)) : (program commands).toList =
    "%!PS-Adobe-3.0\n".toList ++ (faces commands).flatMap (fun f => (defineFace f).toList) ++
      commands.flatMap (fun c => (commandLine c).toList) ++ "showpage\n".toList := by
  change ("%!PS-Adobe-3.0\n" ++ String.join ((faces commands).map defineFace) ++
    String.join (commands.map commandLine) ++ "showpage\n").toList = _
  simp only [String.toList_append, String.toList_join, List.flatMap_map]

/-- The items of a program: its fonts, its commands, and what shows the last page. -/
theorem items?_program {commands : List (Command Float)} (h : ∀ c ∈ commands, Printable c) :
    items? (program commands).toList = some ((faces commands).flatMap fontItems ++
      commands.flatMap commandItems ++ [onPage .showPage]) := by
  have hcomment : items? "%!PS-Adobe-3.0\n".toList = some [] := by decide +kernel
  have hshow : items? "showpage\n".toList = some [onPage .showPage] := by decide +kernel
  have hfaces : ∀ f ∈ faces commands, items? (defineFace f).toList = some (fontItems f) := by
    intro f hf
    obtain rfl | ⟨c, hc, hface⟩ := mem_faces.1 hf
    · exact items?_defineFace (List.all_eq_true.1 (by decide +kernel))
    · exact items?_defineFace ((h c hc).face f hface)
  rw [toList_program]
  exact items?_append (items?_append (items?_append hcomment (items?_flatMap hfaces))
    (items?_flatMap fun c hc => items?_commandLine (h c hc))) hshow

end PostScript

end Tablature
