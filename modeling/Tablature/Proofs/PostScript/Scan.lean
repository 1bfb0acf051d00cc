import Mathlib.Data.List.Forall2
import Tablature.Number.Numeral
import Tablature.PostScript.Literal

/-!
# Reading PostScript

How a PostScript program falls apart into lexemes: words, literal names, strings and
brackets, with white space and comments between them. A character is read in the
mode that those before it leave, so that a program can be read in parts.

* `scan_append`: reading in parts;
* `Spells`: a text that is read as one lexeme where white space follows;
* `spells_word`, `spells_name`, `spells_string`: the texts that are;
* `scan_row`: a row of such texts.
-/

namespace Tablature.PostScript

def isWhite (c : Char) : Bool := c ∈ ['\x00', '\t', '\n', '\x0c', '\r', ' ']

def isDelimiter (c : Char) : Bool :=
  c ∈ ['(', ')', '<', '>', '[', ']', '\x7b', '\x7d', '/', '%']

/-- A character that can stand in a word or a name. -/
def isRegular (c : Char) : Bool := !isWhite c && !isDelimiter c

theorem isRegular_of_isDigit {c : Char} (h : Numeral.isDigit c = true) : isRegular c = true := by
  have hne {d : Char} (hd : Numeral.isDigit d = false) : c ≠ d := by
    rintro rfl
    rw [hd] at h
    cases h
  simp (disch := decide) [isRegular, isWhite, isDelimiter, hne]

inductive Lexeme where
  /-- A number, or the name of an operator. -/
  | word (cs : List Char)
  /-- A name that is not executed. -/
  | name (cs : List Char)
  /-- The body of a string, with its escapes. -/
  | string (body : List Char)
  /-- A delimiter that stands for itself. -/
  | bracket (c : Char)
  deriving DecidableEq, Repr

/-- What the characters read so far have begun. -/
inductive Mode where
  | between
  | comment
  | word (cs : List Char)
  | name (cs : List Char)
  /-- Inside a string, with so many inner parentheses open. -/
  | string (depth : Nat) (body : List Char)
  /-- Inside a string, after a backslash. -/
  | escaped (depth : Nat) (body : List Char)
  deriving DecidableEq, Repr

namespace Mode

/-- What a character begins. -/
def start (c : Char) : List Lexeme × Mode :=
  if isWhite c then ([], between)
  else if c = '%' then ([], comment)
  else if c = '(' then ([], string 0 [])
  else if c = '/' then ([], name [])
  else if isDelimiter c then ([.bracket c], between)
  else ([], word [c])

/-- The lexemes that a character completes, and the mode after it. -/
def next (m : Mode) (c : Char) : List Lexeme × Mode :=
  match m with
  | between => start c
  | comment => if c = '\n' || c = '\r' || c = '\x0c' then ([], between) else ([], comment)
  | word cs =>
    if isRegular c then ([], word (cs ++ [c])) else (.word cs :: (start c).1, (start c).2)
  | name cs =>
    if isRegular c then ([], name (cs ++ [c])) else (.name cs :: (start c).1, (start c).2)
  | string depth body =>
    if c = '\\' then ([], escaped depth (body ++ [c]))
    else if c = '(' then ([], string (depth + 1) (body ++ [c]))
    else if c = ')' then
      match depth with
      | 0 => ([.string body], between)
      | depth + 1 => ([], string depth (body ++ [c]))
    else ([], string depth (body ++ [c]))
  | escaped depth body => ([], string depth (body ++ [c]))

end Mode

/-- The lexemes that characters complete, and the mode after them. -/
def scan : Mode → List Char → List Lexeme × Mode
  | m, [] => ([], m)
  | m, c :: cs => ((m.next c).1 ++ (scan (m.next c).2 cs).1, (scan (m.next c).2 cs).2)

/-- The lexemes of a text, if it ends between two of them. -/
def lexemes? (cs : List Char) : Option (List Lexeme) :=
  match scan .between cs with
  | (ls, .between) => some ls
  | _ => none

theorem scan_append (m : Mode) (cs ds : List Char) :
    scan m (cs ++ ds) =
      ((scan m cs).1 ++ (scan (scan m cs).2 ds).1, (scan (scan m cs).2 ds).2) := by
  induction cs generalizing m with
  | nil => rfl
  | cons c cs ih => simp only [List.cons_append, scan, ih, List.append_assoc]

/-- Two parts, of which the first ends between two lexemes. -/
theorem scan_between {m : Mode} {cs ds : List Char} {ls ls' : List Lexeme} {m' : Mode}
    (h : scan m cs = (ls, .between)) (h' : scan .between ds = (ls', m')) :
    scan m (cs ++ ds) = (ls ++ ls', m') := by
  rw [scan_append, h, h']

/-- A mode that collects characters of a kind collects them all. -/
theorem scan_collect {P : Char → Prop} {mode : List Char → Mode}
    (hnext : ∀ c, P c → ∀ w, (mode w).next c = ([], mode (w ++ [c]))) {cs : List Char}
    (h : ∀ c ∈ cs, P c) (w : List Char) : scan (mode w) cs = ([], mode (w ++ cs)) := by
  induction cs generalizing w with
  | nil => rw [scan, List.append_nil]
  | cons c cs ih =>
    rw [scan, hnext c (h c List.mem_cons_self), ih fun d hd => h d (List.mem_cons_of_mem _ hd)]
    simp

theorem scan_word {cs : List Char} (h : ∀ c ∈ cs, isRegular c = true) (w : List Char) :
    scan (.word w) cs = ([], .word (w ++ cs)) :=
  scan_collect (fun c hc w => by simp [Mode.next, hc]) h w

theorem scan_name {cs : List Char} (h : ∀ c ∈ cs, isRegular c = true) (n : List Char) :
    scan (.name n) cs = ([], .name (n ++ cs)) :=
  scan_collect (fun c hc n => by simp [Mode.next, hc]) h n

/-! ## Texts of one lexeme -/

/-- A text that is read as a lexeme where white space follows. -/
def Spells (cs : List Char) (l : Lexeme) : Prop :=
  ∀ c, isWhite c = true → scan .between (cs ++ [c]) = ([l], .between)

/-- White space ends a word or a name. -/
theorem next_of_isWhite {c : Char} (h : isWhite c = true) :
    (∀ w, (Mode.word w).next c = ([.word w], .between)) ∧
      (∀ n, (Mode.name n).next c = ([.name n], .between)) ∧
      Mode.between.next c = ([], .between) := by
  have hr : isRegular c = false := by simp [isRegular, h]
  have hs : Mode.start c = ([], .between) := by simp [Mode.start, h]
  exact ⟨fun w => by simp [Mode.next, hr, hs], fun n => by simp [Mode.next, hr, hs], hs⟩

/-- A regular character begins a word. -/
theorem next_of_isRegular {c : Char} (h : isRegular c = true) :
    Mode.between.next c = ([], .word [c]) := by
  simp only [isRegular, Bool.and_eq_true, Bool.not_eq_true'] at h
  obtain ⟨hw, hd⟩ := h
  have hne {d : Char} (hd' : isDelimiter d = true) : c ≠ d := by
    rintro rfl
    rw [hd] at hd'
    cases hd'
  simp only [Mode.next, Mode.start, hw, hd, if_neg (hne (d := '%') rfl),
    if_neg (hne (d := '(') rfl), if_neg (hne (d := '/') rfl), Bool.false_eq_true, if_false]

theorem spells_word {cs : List Char} (hne : cs ≠ []) (h : ∀ c ∈ cs, isRegular c = true) :
    Spells cs (.word cs) := by
  intro d hd
  cases cs with
  | nil => exact absurd rfl hne
  | cons c cs =>
    have hcs := scan_word (fun d hd => h d (List.mem_cons_of_mem _ hd)) [c]
    rw [List.cons_append, scan, next_of_isRegular (h c List.mem_cons_self), scan_append, hcs]
    simp [scan, (next_of_isWhite hd).1]

theorem spells_name {cs : List Char} (h : ∀ c ∈ cs, isRegular c = true) :
    Spells ('/' :: cs) (.name cs) := by
  intro d hd
  have hslash : Mode.between.next '/' = ([], .name []) := rfl
  rw [List.cons_append, scan, hslash, scan_append, scan_name h []]
  simp [scan, (next_of_isWhite hd).2.1]

/-! ## Strings -/

/-- A character that stands for itself in a string. -/
theorem next_string_of_ne {c : Char} (h : c ≠ '\\' ∧ c ≠ '(' ∧ c ≠ ')') (depth : Nat)
    (body : List Char) : (Mode.string depth body).next c = ([], .string depth (body ++ [c])) := by
  simp [Mode.next, h]

theorem ne_of_isOctalDigit {c : Char} (h : isOctalDigit c = true) :
    c ≠ '\\' ∧ c ≠ '(' ∧ c ≠ ')' := by
  refine ⟨?_, ?_, ?_⟩ <;> rintro rfl <;> cases h

theorem head_of_startsOctal {cs : List Char} (h : startsOctal cs = true) :
    cs.head?.any isOctalDigit = true := by
  unfold startsOctal at h
  split at h
  · simp only [Bool.and_eq_true] at h
    exact h.1.1
  · cases h

theorem isOctalDigit_of_mem_octal {n : Nat} {c : Char} (h : c ∈ octal n) :
    isOctalDigit c = true := by
  have digit : ∀ d < 8, isOctalDigit (Nat.digitChar d) = true := by decide
  simp only [octal, List.map_cons, List.map_nil, List.mem_cons, List.not_mem_nil, or_false] at h
  rcases h with h | h | h <;> subst h <;> exact digit _ (Nat.mod_lt _ (by decide))

/-- Characters that stand for themselves are read as they are. -/
theorem scan_string {cs : List Char} (h : ∀ c ∈ cs, c ≠ '\\' ∧ c ≠ '(' ∧ c ≠ ')') (depth : Nat)
    (body : List Char) : scan (.string depth body) cs = ([], .string depth (body ++ cs)) :=
  scan_collect (fun _ hc => next_string_of_ne hc depth) h body

/-- An escape is read as it is. -/
theorem scan_escapeChar (depth : Nat) (body : List Char) (c : Char) :
    scan (.string depth body) (escapeChar c) = ([], .string depth (body ++ escapeChar c)) := by
  have hescaped (d : Char) : scan (.string depth body) ['\\', d] =
      ([], .string depth (body ++ ['\\', d])) := by
    simp [scan, Mode.next]
  unfold escapeChar
  split
  · exact hescaped _
  · split
    · exact hescaped _
    · split
      · exact hescaped _
      · rename_i h₁ h₂ h₃
        split
        · exact scan_string (by simpa using ⟨h₁, h₂, h₃⟩) depth body
        · split
          · obtain ⟨a, ds, e⟩ : ∃ a ds, octal c.toNat = a :: ds := ⟨_, _, rfl⟩
            have hds : ∀ d ∈ ds, d ≠ '\\' ∧ d ≠ '(' ∧ d ≠ ')' := fun d hd =>
              ne_of_isOctalDigit
                (isOctalDigit_of_mem_octal (e ▸ List.mem_cons_of_mem _ hd))
            rw [e, ← List.singleton_append (l := ds), ← List.cons_append, scan_append, hescaped,
              scan_string hds]
            simp
          · exact scan_string (by simp) depth body

/-- An octal digit is not escaped. -/
theorem escape_cons_of_isOctalDigit {d : Char} (h : isOctalDigit d = true) (cs : List Char) :
    escape (d :: cs) = d :: escape cs := by
  obtain ⟨h₁, h₂, h₃⟩ := ne_of_isOctalDigit h
  have hlt : d.toNat < 0x80 := by
    simp only [isOctalDigit, Bool.and_eq_true, decide_eq_true_eq] at h
    have : d.toNat ≤ '7'.toNat := h.2
    exact Nat.lt_of_le_of_lt this (by decide)
  simp [escape, escapeChar, h₁, h₂, h₃, hlt]

/-- An escaped text is read to its end, and nothing in it ends the string. A backslash that the
text holds already comes before an octal digit, which does not end it either. -/
theorem scan_escape (depth : Nat) (body s : List Char) :
    scan (.string depth body) (escape s) = ([], .string depth (body ++ escape s)) ∧
      ((s.head?.any isOctalDigit) = true →
        scan (.escaped depth body) (escape s) = ([], .string depth (body ++ escape s))) := by
  induction s generalizing body with
  | nil => exact ⟨by simp [escape, scan], nofun⟩
  | cons c cs ih =>
    refine ⟨?_, fun hc => ?_⟩
    · rw [escape]
      split
      · rename_i hoctal
        simp only [Bool.and_eq_true, decide_eq_true_eq] at hoctal
        obtain ⟨rfl, hoctal⟩ := hoctal
        have hnext : (Mode.string depth body).next '\\' =
            ([], .escaped depth (body ++ ['\\'])) := rfl
        rw [List.singleton_append, scan, hnext, (ih _).2 (head_of_startsOctal hoctal)]
        simp
      · rw [scan_append, scan_escapeChar, (ih _).1]
        simp
    · have hc : isOctalDigit c = true := hc
      have hnext : (Mode.escaped depth body).next c = ([], .string depth (body ++ [c])) := rfl
      rw [escape_cons_of_isOctalDigit hc, scan, hnext, (ih _).1]
      simp

theorem spells_string (s : List Char) :
    Spells ('(' :: (escape s ++ [')'])) (.string (escape s)) := by
  intro d hd
  have hopen : Mode.between.next '(' = ([], .string 0 []) := rfl
  rw [List.cons_append, scan, hopen, List.append_assoc, scan_append, (scan_escape 0 [] s).1]
  have hclose : (Mode.string 0 ([] ++ escape s)).next ')' = ([.string (escape s)], .between) := rfl
  simp only [scan, List.singleton_append, hclose, (next_of_isWhite hd).2.2]
  rfl

/-! ## Rows -/

/-- Texts with blanks between them and a line break at the end are read one by one. -/
theorem scan_row {ts : List (List Char)} {ls : List Lexeme} (h : List.Forall₂ Spells ts ls)
    (hne : ts ≠ []) :
    scan .between (List.intercalate [' '] ts ++ ['\n']) = (ls, .between) := by
  induction h with
  | nil => exact absurd rfl hne
  | @cons t l ts ls ht hts ih =>
    cases hts with
    | nil =>
      rw [List.intercalate_singleton]
      exact ht '\n' rfl
    | @cons t' l' ts ls ht' hts =>
      rw [List.intercalate_cons_cons, List.append_assoc, List.append_assoc, ← List.append_assoc]
      exact scan_between (ht ' ' rfl) (ih (by simp))

end Tablature.PostScript
