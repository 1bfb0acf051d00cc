import Tablature.Proofs.PostScript.Scan

/-!
# Strings read back

What a PostScript reader makes of a string between parentheses, byte by byte, and
what a text means that is written there: an escape of three octal digits that the
text holds is a byte already, every other character is its byte in Latin-1. The
writer asks only whether octal digits follow a backslash; the reader takes
parentheses and backslashes there as well.

* `readString?`: the bytes of a string, and what follows it;
* `textBytes`: the bytes that a text means;
* `readBody?_escapeChar`, `readBody?_escape`: an escaped character and an escaped text
  are read as what they mean, whatever follows them;
* `readString?_of_text`: a text that is written as a string is read back to its end.
-/

namespace Tablature.PostScript

/-- The byte of a character in Latin-1. -/
def latinByte (c : Char) : UInt8 := .ofNat c.toNat

/-- The value of an octal digit. -/
def octalValue (d : Char) : Nat := d.toNat - '0'.toNat

/-- The byte that three octal digits write; what is more than a byte is taken modulo 256. -/
def octalByte (a b c : Char) : UInt8 :=
  .ofNat (64 * octalValue a + 8 * octalValue b + octalValue c)

/-! ## Reading -/

/-- Reads the escape behind a backslash, if there is one: the byte it stands for, and what
follows it. -/
def readEscape? : List Char → Option (UInt8 × List Char)
  | '\\' :: cs => some (latinByte '\\', cs)
  | '(' :: cs => some (latinByte '(', cs)
  | ')' :: cs => some (latinByte ')', cs)
  | a :: b :: c :: cs =>
    if isOctalDigit a && isOctalDigit b && isOctalDigit c then some (octalByte a b c, cs) else none
  | _ => none

theorem length_lt_of_readEscape? {cs rest : List Char} {b : UInt8}
    (h : readEscape? cs = some (b, rest)) : rest.length < cs.length := by
  unfold readEscape? at h
  split at h
  · cases h; simp
  · cases h; simp
  · cases h; simp
  · split at h
    · cases h; simp only [List.length_cons]; omega
    · cases h
  · cases h

/-- A byte in front of those that are read. -/
def emit (b : UInt8) : Option (List UInt8 × List Char) → Option (List UInt8 × List Char) :=
  Option.map fun read => (b :: read.1, read.2)

/-- Reads the rest of a string in which so many inner parentheses are open: its bytes, and what
follows the parenthesis that closes it. A backslash that begins no escape stands for itself. -/
def readBody? (depth : Nat) : List Char → Option (List UInt8 × List Char)
  | [] => none
  | c :: cs =>
    if c = '\\' then
      match _h : readEscape? cs with
      | some (b, rest) => emit b (readBody? depth rest)
      | none => emit (latinByte c) (readBody? depth cs)
    else if c = '(' then emit (latinByte c) (readBody? (depth + 1) cs)
    else if c = ')' then
      match depth with
      | 0 => some ([], cs)
      | depth + 1 => emit (latinByte c) (readBody? depth cs)
    else emit (latinByte c) (readBody? depth cs)
termination_by cs => cs.length
decreasing_by
  · exact Nat.lt_succ_of_lt (length_lt_of_readEscape? _h)
  all_goals exact Nat.lt_succ_self _

/-- Reads a string: its bytes, and what follows it. -/
def readString? : List Char → Option (List UInt8 × List Char)
  | '(' :: cs => readBody? 0 cs
  | _ => none

variable {depth : Nat} {cs : List Char}

theorem readBody?_of_readEscape? {rest : List Char} {b : UInt8}
    (h : readEscape? cs = some (b, rest)) :
    readBody? depth ('\\' :: cs) = emit b (readBody? depth rest) := by
  rw [readBody?.eq_def]
  dsimp only
  rw [if_pos rfl]
  split
  · rename_i h'
    rw [h] at h'
    cases h'
    rfl
  · rename_i h'
    rw [h] at h'
    cases h'

theorem readBody?_of_ne {c : Char} (h : c ≠ '\\' ∧ c ≠ '(' ∧ c ≠ ')') :
    readBody? depth (c :: cs) = emit (latinByte c) (readBody? depth cs) := by
  rw [readBody?.eq_def]
  dsimp only
  rw [if_neg h.1, if_neg h.2.1, if_neg h.2.2]

theorem readBody?_close : readBody? 0 (')' :: cs) = some ([], cs) := by
  simp [readBody?]

theorem readEscape?_octal {a b c : Char} (ha : isOctalDigit a = true) (hb : isOctalDigit b = true)
    (hc : isOctalDigit c = true) : readEscape? (a :: b :: c :: cs) = some (octalByte a b c, cs) := by
  obtain ⟨h₁, h₂, h₃⟩ := ne_of_isOctalDigit ha
  unfold readEscape?
  split
  · rename_i h; exact absurd (List.cons.inj h).1 h₁
  · rename_i h; exact absurd (List.cons.inj h).1 h₂
  · rename_i h; exact absurd (List.cons.inj h).1 h₃
  · rename_i h; cases h; simp [ha, hb, hc]
  · rename_i h; exact absurd rfl (h _ _ _ _)

/-! ## What a text means -/

/-- The byte of a character; a question mark stands for those that Latin-1 does not have. -/
def charByte (c : Char) : UInt8 := if c.toNat ≤ 0xFF then latinByte c else latinByte '?'

/-- The bytes that a text means. -/
def textBytes : List Char → List UInt8
  | [] => []
  | '\\' :: a :: b :: c :: cs =>
    if isOctalDigit a && isOctalDigit b && isOctalDigit c then octalByte a b c :: textBytes cs
    else latinByte '\\' :: textBytes (a :: b :: c :: cs)
  | c :: cs => charByte c :: textBytes cs

/-! ## An escaped text -/

/-- A byte is read back from its octal digits. -/
theorem octalByte_octal {n : Nat} (h : n ≤ 0xFF) :
    octalByte (n / 64 % 8).digitChar (n / 8 % 8).digitChar (n % 8).digitChar = .ofNat n := by
  have hvalue : ∀ d < 8, octalValue d.digitChar = d := by decide
  have hlt (k : Nat) : k % 8 < 8 := Nat.mod_lt k (by decide)
  have hsum : 64 * (n / 64 % 8) + 8 * (n / 8 % 8) + n % 8 = n := by omega
  rw [octalByte, hvalue _ (hlt _), hvalue _ (hlt _), hvalue _ (hlt _), hsum]

/-- An escaped character is read as the byte of the character. -/
theorem readBody?_escapeChar (c : Char) :
    readBody? depth (escapeChar c ++ cs) = emit (charByte c) (readBody? depth cs) := by
  unfold escapeChar
  split
  · rename_i h; subst h; exact readBody?_of_readEscape? rfl
  split
  · rename_i h; subst h; exact readBody?_of_readEscape? rfl
  split
  · rename_i h; subst h; exact readBody?_of_readEscape? rfl
  rename_i h₁ h₂ h₃
  split
  · rename_i hascii
    have hbyte : charByte c = latinByte c := if_pos (by omega)
    rw [List.singleton_append, readBody?_of_ne ⟨h₁, h₂, h₃⟩, hbyte]
  split
  · rename_i hlatin
    have hdigit {d : Char} (hd : d ∈ octal c.toNat) := isOctalDigit_of_mem_octal hd
    have hread : readEscape? (octal c.toNat ++ cs) = some (_, cs) :=
      readEscape?_octal (hdigit List.mem_cons_self)
        (hdigit (List.mem_cons_of_mem _ List.mem_cons_self))
        (hdigit (List.mem_cons_of_mem _ (List.mem_cons_of_mem _ List.mem_cons_self)))
    rw [octalByte_octal hlatin] at hread
    have hbyte : charByte c = latinByte c := if_pos hlatin
    rw [hbyte]
    exact readBody?_of_readEscape? hread
  · rename_i hlatin
    have hbyte : charByte c = latinByte '?' := if_neg hlatin
    rw [List.singleton_append, readBody?_of_ne (by decide), hbyte]

/-- Unless it begins an escape that the text holds, a character is escaped on its own. -/
theorem escape_cons_of_not {c : Char} (h : ¬ (c = '\\' ∧ startsOctal cs = true)) :
    escape (c :: cs) = escapeChar c ++ escape cs := by
  rw [escape, if_neg (by simpa using h)]

/-- An escaped text is read as the bytes that the text means. No escape at its end reaches into
what follows it. -/
theorem readBody?_escape (t : List Char) :
    readBody? depth (escape t ++ cs) =
      (readBody? depth cs).map fun read => (textBytes t ++ read.1, read.2) := by
  fun_induction textBytes t with
  | case1 => simp [escape]
  | case2 a b c t h ih =>
    simp only [Bool.and_eq_true] at h
    obtain ⟨⟨ha, hb⟩, hc⟩ := h
    have hescape : escape ('\\' :: a :: b :: c :: t) = '\\' :: a :: b :: c :: escape t := by
      rw [escape, escape_cons_of_isOctalDigit ha, escape_cons_of_isOctalDigit hb,
        escape_cons_of_isOctalDigit hc, if_pos (by simp [startsOctal, ha, hb, hc])]
      rfl
    rw [hescape]
    simp only [List.cons_append]
    rw [readBody?_of_readEscape? (readEscape?_octal ha hb hc), ih, emit, Option.map_map]
    rfl
  | case3 a b c t h ih =>
    rw [escape_cons_of_not (by simpa [startsOctal] using h), List.append_assoc,
      readBody?_escapeChar, ih, emit, Option.map_map]
    rfl
  | case4 c t h ih =>
    have hnot : ¬ (c = '\\' ∧ startsOctal t = true) := by
      rintro ⟨rfl, ht⟩
      unfold startsOctal at ht
      split at ht
      · exact h _ _ _ _ rfl rfl
      · cases ht
    rw [escape_cons_of_not hnot, List.append_assoc, readBody?_escapeChar, ih, emit,
      Option.map_map]
    rfl

/-- A string between parentheses in which a text is escaped is read to the closing one and no
further, whatever the text and whatever follows: its bytes are those that the text means, and the
escaped text is ASCII. -/
theorem readString?_of_text (text rest : List Char) :
    readString? ('(' :: (escape text ++ ')' :: rest)) = some (textBytes text, rest) ∧
      ∀ c ∈ escape text, c.toNat < 0x80 := by
  refine ⟨?_, fun c => toNat_lt_of_mem_escape⟩
  have hbody : readString? ('(' :: (escape text ++ ')' :: rest)) =
      readBody? 0 (escape text ++ ')' :: rest) := rfl
  rw [hbody, readBody?_escape, readBody?_close, Option.map_some, List.append_nil]

/-- Two backslashes before three octal digits, a backslash before a parenthesis, and one at the
end, behind a character that Latin-1 does not have. -/
example : textBytes ['\\', '\\', '7', '7', '7', '\\', ')', '♭', '\\'] =
    [0x5C, 0xFF, 0x5C, 0x29, 0x3F, 0x5C] := by
  decide

end Tablature.PostScript
