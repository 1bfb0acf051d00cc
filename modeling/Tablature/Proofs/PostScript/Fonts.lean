import Mathlib.Data.String.Basic
import Tablature.Proofs.PostScript.Lexical

/-!
# The fonts of a program

Before anything is drawn, a program makes a copy with Latin-1 encoding of every font that one of
its texts is set in, and of one font more. The definitions are written from one pass over the
drawing and the commands from another, and a face may name a font or already the copy of one; so
both passes have to find the same font behind every face.

* `utf8Bytes_lt`: texts are ordered as their bytes in UTF-8 are;
* `pairwise_faces`: the fonts of a drawing, each once and in order;
* `NamesFont`, `namesFont_iff`: the font that a face names;
* `names_tokens`: the names in the line of a command;
* `exists_fonts`: the definitions of a program and the names in its commands.
-/

namespace Tablature

/-! ## The order of bytes -/

/-- The bytes of a text in UTF-8. -/
def utf8Bytes (s : String) : List UInt8 := s.toUTF8.data.toList

theorem utf8Bytes_eq (s : String) : utf8Bytes s = s.toList.flatMap String.utf8EncodeChar := by
  rw [utf8Bytes, String.toUTF8, ← String.utf8Encode_toList, List.utf8Encode,
    List.toList_data_toByteArray]

theorem toNat_val_lt (c : Char) : c.val.toNat < 0x110000 := by
  have h : c.val.toNat.isValidChar := c.valid
  unfold Nat.isValidChar at h
  omega

/-- The bytes of a character come before those of a later one, whatever follows either. -/
theorem utf8EncodeChar_append_lt {c d : Char} (h : c < d) (l m : List UInt8) :
    String.utf8EncodeChar c ++ l < String.utf8EncodeChar d ++ m := by
  have hlt : c.val.toNat < d.val.toNat := h
  have hd := toNat_val_lt d
  unfold String.utf8EncodeChar
  generalize c.val.toNat = v at hlt ⊢
  generalize d.val.toNat = w at hlt hd ⊢
  have hv : v / 262144 % 8 = v / 262144 := Nat.mod_eq_of_lt (by omega)
  have hw : w / 262144 % 8 = w / 262144 := Nat.mod_eq_of_lt (by omega)
  simp only [hv, hw]
  -- The first byte is the greater, the more bytes there are. Bytes of the same number of them are
  -- the digits of the code points, the highest first.
  split_ifs <;>
    simp (disch := omega) only [List.cons_append, List.nil_append, List.cons_lt_cons_iff,
      UInt8.lt_iff_toNat_lt, ← UInt8.toNat_inj, UInt8.toNat_ofNat', Nat.mod_eq_of_lt] <;>
    omega

theorem flatMap_utf8EncodeChar_lt {cs ds : List Char} (h : cs < ds) :
    cs.flatMap String.utf8EncodeChar < ds.flatMap String.utf8EncodeChar := by
  induction h with
  | @nil d ds =>
    rw [List.flatMap_nil, List.flatMap_cons]
    cases hd : String.utf8EncodeChar d with
    | nil => exact absurd hd String.utf8EncodeChar_ne_nil
    | cons b bs => exact List.nil_lt_cons _ _
  | rel h => exact utf8EncodeChar_append_lt h _ _
  | cons _ ih => exact List.append_left_lt ih

/-- Texts are ordered as their bytes are. -/
theorem utf8Bytes_lt {s t : String} (h : s < t) : utf8Bytes s < utf8Bytes t := by
  rw [utf8Bytes_eq, utf8Bytes_eq]
  exact flatMap_utf8EncodeChar_lt (String.lt_iff.1 h)

namespace PostScript

/-! ## The order of the fonts -/

theorem pairwise_insertFace {face : String} {fs : List String} (h : fs.Pairwise (· < ·)) :
    (insertFace face fs).Pairwise (· < ·) := by
  induction fs with
  | nil => exact List.pairwise_singleton _ _
  | cons f fs ih =>
    obtain ⟨hf, hfs⟩ := List.pairwise_cons.1 h
    rw [insertFace]
    split_ifs with hlt heq
    · refine List.pairwise_cons.2 ⟨fun g hg => ?_, h⟩
      obtain rfl | hg := List.mem_cons.1 hg
      · exact hlt
      · exact hlt.trans (hf g hg)
    · exact h
    · refine List.pairwise_cons.2 ⟨fun g hg => ?_, ih hfs⟩
      obtain rfl | hg := mem_insertFace.1 hg
      · exact lt_of_le_of_ne (not_lt.1 hlt) (Ne.symm heq)
      · exact hf g hg

/-- The fonts of a drawing are in strictly increasing order. -/
theorem pairwise_faces (commands : List (Command Float)) :
    (faces commands).Pairwise (· < ·) := by
  have hfold (fs gs : List String) (h : gs.Pairwise (· < ·)) :
      (fs.foldl (fun gs f => insertFace f gs) gs).Pairwise (· < ·) := by
    induction fs generalizing gs with
    | nil => exact h
    | cons f fs ih => exact ih _ (pairwise_insertFace h)
  exact hfold _ _ (List.pairwise_singleton _ _)

/-! ## The names of fonts -/

/-- The font that a face names: the face itself, or what is left of it without `-ISOLatin1` at its
end. -/
inductive NamesFont : String → String → Prop where
  | copy (font : String) : NamesFont (font ++ "-ISOLatin1") font
  | font {font : String} : ¬ "-ISOLatin1".toList <:+ font.toList → NamesFont font font

theorem baseFace_eq_self {face : String} (h : ¬ latinSuffix.toList <:+ face.toList) :
    baseFace face = face := by
  unfold baseFace
  split
  · rename_i base hbase
    exact absurd ⟨base, List.isSuffixOf?_eq_some_iff_append_eq.1 hbase⟩ h
  · rfl

theorem exists_eq_append {face : String} (h : latinSuffix.toList <:+ face.toList) :
    ∃ font, face = font ++ latinSuffix := by
  obtain ⟨base, hbase⟩ := h
  refine ⟨String.ofList base, ?_⟩
  rw [← String.toList_inj, String.toList_append, String.toList_ofList, hbase]

/-- A face names one font. -/
theorem namesFont_iff {face font : String} : NamesFont face font ↔ baseFace face = font := by
  constructor
  · rintro (_ | h)
    · exact baseFace_append font
    · exact baseFace_eq_self h
  · rintro rfl
    by_cases h : latinSuffix.toList <:+ face.toList
    · obtain ⟨font, rfl⟩ := exists_eq_append h
      rw [baseFace_append]
      exact .copy font
    · rw [baseFace_eq_self h]
      exact .font h

def Token.name? : Token → Option String
  | .name n => some n
  | _ => none

/-- The names in the line of a command, which are those of the fonts that it selects. -/
def names (c : Command Float) : List String := (tokens c).filterMap Token.name?

theorem names_text (text : String) (x y size : Float) (face : String) (align : Align) :
    names (.text text x y size face align) = [latinFace face] := by
  cases align <;> rfl

theorem names_eq_nil {c : Command Float} (h : c.face? = none) : names c = [] := by
  refine List.eq_nil_iff_forall_not_mem.2 fun n hn => ?_
  obtain ⟨t, ht, htn⟩ := List.mem_filterMap.1 hn
  cases t with
  | name n =>
    obtain ⟨f, hf, -⟩ := exists_face_of_name_mem_tokens ht
    cases c with
    | text => cases h
    | _ => cases hf
  | _ => cases htn

/-! ## Lines -/

/-- The text that copies a font under another name, with Latin-1 encoding. -/
def copyFont (font copy : String) : String :=
  "/" ++ font ++ " findfont dup length dict begin " ++
    "\x7b 1 index /FID ne \x7bdef\x7d \x7bpop pop\x7d ifelse \x7d forall\n" ++
    "/Encoding ISOLatin1Encoding def currentdict end\n" ++
    "/" ++ copy ++ " exch definefont pop\n"

theorem defineFace_eq (font : String) : defineFace font = copyFont font (font ++ "-ISOLatin1") := by
  simp only [defineFace, copyFont, latinSuffix, String.append_assoc]

/-- The line of a text selects the font, and then the text is shown. -/
theorem commandLine_text (text : String) (x y size : Float) (face : String) (align : Align) :
    commandLine (.text text x y size face align) =
      "/" ++ latinFace face ++ " findfont " ++ thousandths size ++ " scalefont setfont " ++
        String.intercalate " " ((showText text x y align).map Token.text) ++ "\n" := by
  have hselect : String.intercalate " " ((selectFont face size).map Token.text) =
      "/" ++ latinFace face ++ " findfont " ++ thousandths size ++ " scalefont setfont" := by
    simp only [selectFont, List.map_cons, List.map_nil, Token.text, String.intercalate_cons_cons,
      String.intercalate_singleton, String.append_assoc]
    rfl
  have hne : (selectFont face size).map Token.text ≠ [] := List.cons_ne_nil _ _
  have hshow : (showText text x y align).map Token.text ≠ [] := by
    cases align <;> exact List.cons_ne_nil _ _
  rw [commandLine, tokens, List.map_append, String.intercalate_append_of_ne_nil hne hshow, hselect]
  simp only [String.append_assoc]
  rfl

/-! ## Programs -/

theorem mem_faces_iff {commands : List (Command Float)} {f : String} : f ∈ faces commands ↔
    f = defaultFace ∨ ∃ c ∈ commands, ∃ face, c.face? = some face ∧ NamesFont face f := by
  have hfont (c : Command Float) :
      faceOf? c = some f ↔ ∃ face, c.face? = some face ∧ NamesFont face f := by
    cases c <;> simp [faceOf?, Command.face?, namesFont_iff]
  simp only [mem_faces, hfont]

/-- A face with the suffix after it selects the font that it selects itself, unless it has the
suffix already. -/
theorem names_eq_iff {c d : Command Float} {face : String} (hc : c.face? = some face)
    (hd : d.face? = some (face ++ latinSuffix)) :
    names c = names d ↔ ¬ latinSuffix.toList <:+ face.toList := by
  have hnames {c : Command Float} {face : String} (h : c.face? = some face) :
      names c = [latinFace face] := by
    cases c with
    | text => cases h; exact names_text _ _ _ _ _ _
    | _ => cases h
  rw [hnames hc, hnames hd, List.singleton_inj, latinFace, latinFace, baseFace_append,
    String.append_left_inj]
  constructor
  · intro h hsuffix
    obtain ⟨font, rfl⟩ := exists_eq_append hsuffix
    have hlength := congrArg String.length h
    rw [baseFace_append, String.length_append] at hlength
    have : latinSuffix.length = 10 := rfl
    omega
  · exact baseFace_eq_self

/-- Every program is made of the definitions of fonts and of the lines of its commands. The fonts
are Times-Roman and those that the texts name; they are in the order of their bytes, so that each
is copied once. A text is set in the copy of the font that its face names, and other commands name
no font. A face with the suffix after it is set in the same copy as without. -/
theorem exists_fonts (commands : List (Command Float)) : ∃ fonts : List String,
    program commands = "%!PS-Adobe-3.0\n" ++
      String.join (fonts.map fun f => copyFont f (f ++ "-ISOLatin1")) ++
      String.join (commands.map commandLine) ++ "showpage\n" ∧
    (∀ f, f ∈ fonts ↔
      f = "Times-Roman" ∨ ∃ c ∈ commands, ∃ face, c.face? = some face ∧ NamesFont face f) ∧
    fonts.Pairwise (fun f g => utf8Bytes f < utf8Bytes g) ∧
    (fonts.map fun f => f ++ "-ISOLatin1").Nodup ∧
    (∀ text x y size face align, .text text x y size face align ∈ commands →
      ∃ f ∈ fonts, NamesFont face f ∧
        names (.text text x y size face align) = [f ++ "-ISOLatin1"] ∧
        commandLine (.text text x y size face align) =
          "/" ++ (f ++ "-ISOLatin1") ++ " findfont " ++ thousandths size ++ " scalefont setfont " ++
            String.intercalate " " ((showText text x y align).map Token.text) ++ "\n") ∧
    (∀ c ∈ commands, .operator "definefont" ∉ tokens c ∧ (c.face? = none → names c = [])) ∧
    ∀ c ∈ commands, ∀ d ∈ commands, ∀ face, c.face? = some face →
      d.face? = some (face ++ "-ISOLatin1") →
      (names c = names d ↔ ¬ "-ISOLatin1".toList <:+ face.toList) := by
  have hsorted := pairwise_faces commands
  refine ⟨faces commands, ?_, fun f => mem_faces_iff, hsorted.imp utf8Bytes_lt, ?_, ?_, ?_, ?_⟩
  · change "%!PS-Adobe-3.0\n" ++ String.join ((faces commands).map defineFace) ++
      String.join (commands.map commandLine) ++ "showpage\n" = _
    rw [show defineFace = _ from funext defineFace_eq]
  · exact (hsorted.imp ne_of_lt).map _ fun f g hne h => hne ((String.append_left_inj _).1 h)
  · intro text x y size face align hmem
    refine ⟨baseFace face, mem_faces_iff.2 (.inr ⟨_, hmem, face, rfl, namesFont_iff.2 rfl⟩),
      namesFont_iff.2 rfl, names_text _ _ _ _ _ _, commandLine_text _ _ _ _ _ _⟩
  · exact fun c _ => ⟨fun h => absurd (mem_commandOperators h) (by decide), names_eq_nil⟩
  · exact fun c _ d _ face hc hd => names_eq_iff hc hd

/-- A font and its copy, a face that ends in the suffix twice, and one that is only the suffix. -/
theorem exists_fonts_of_suffixed :
    let text (face : String) : Command Float := .text "a" 40.0 700.0 12.0 face .left
    let commands := [text "Zapfino", .pageBreak, text "Zapfino-ISOLatin1",
      text "A-ISOLatin1-ISOLatin1", text "-ISOLatin1"]
    ∃ fonts : List String,
      program commands = "%!PS-Adobe-3.0\n" ++
        String.join (fonts.map fun f => copyFont f (f ++ "-ISOLatin1")) ++
        String.join (commands.map commandLine) ++ "showpage\n" ∧
      "Times-Roman" ∈ fonts ∧ "Zapfino" ∈ fonts ∧ "A-ISOLatin1" ∈ fonts ∧ "" ∈ fonts ∧
      "A" ∉ fonts ∧
      (∃ f ∈ fonts, NamesFont "Zapfino-ISOLatin1" f ∧
        names (text "Zapfino-ISOLatin1") = [f ++ "-ISOLatin1"]) ∧
      names (text "Zapfino") = names (text "Zapfino-ISOLatin1") ∧ names .pageBreak = [] := by
  intro text commands
  obtain ⟨fonts, hprogram, hmem, -, -, htext, hother, hsame⟩ := exists_fonts commands
  have hfont : text "Zapfino" ∈ commands := List.mem_of_getElem? (show commands[0]? = _ from rfl)
  have hbreak : .pageBreak ∈ commands := List.mem_of_getElem? (show commands[1]? = _ from rfl)
  have hcopy : text "Zapfino-ISOLatin1" ∈ commands :=
    List.mem_of_getElem? (show commands[2]? = _ from rfl)
  have hcommand (face : String) (n : Nat) (h : commands[n]? = some (text face)) {f : String}
      (hf : NamesFont face f) : f ∈ fonts :=
    (hmem f).2 (.inr ⟨text face, List.mem_of_getElem? h, face, rfl, hf⟩)
  have hA : ∀ c ∈ commands, ∀ face ∈ c.face?, baseFace face ≠ "A" := by decide +kernel
  refine ⟨fonts, hprogram, (hmem _).2 (.inl rfl), hcommand _ 2 rfl (.copy "Zapfino"),
    hcommand "A-ISOLatin1-ISOLatin1" 3 rfl (.copy "A-ISOLatin1"),
    hcommand "-ISOLatin1" 4 rfl (.copy ""), fun h => ?_, ?_, ?_, ?_⟩
  · obtain h | ⟨c, hc, face, hface, hnames⟩ := (hmem "A").1 h
    · exact absurd h (by decide)
    · exact hA c hc face hface (namesFont_iff.1 hnames)
  · obtain ⟨f, hf, hnames, hselected, -⟩ := htext _ _ _ _ _ _ hcopy
    exact ⟨f, hf, hnames, hselected⟩
  · exact (hsame _ hfont _ hcopy "Zapfino" rfl rfl).2 (by decide)
  · exact (hother _ hbreak).2 rfl

end PostScript

end Tablature
