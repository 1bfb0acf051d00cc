/-!
# Text

Blank characters, and the ways a source text is taken apart: into lines, into
blank-separated words, and at its first dash.

- `isBlank_of_isWhitespace`: whatever the core library calls white space is blank.
- `span_append`: where a leading stretch of characters of a kind ends.
- `ne_nil_of_mem_words`: a word is never empty.
- `eq_append_of_cut?`: cutting loses nothing but the character it cuts at.
-/

namespace Tablature.Text

/-- The characters with the Unicode property `White_Space`. -/
def isBlank (c : Char) : Bool :=
  let n := c.toNat
  (0x09 ≤ n && n ≤ 0x0D) || n == 0x20 || n == 0x85 || n == 0xA0 || n == 0x1680 ||
    (0x2000 ≤ n && n ≤ 0x200A) || n == 0x2028 || n == 0x2029 || n == 0x202F ||
    n == 0x205F || n == 0x3000

theorem isBlank_of_isWhitespace {c : Char} (h : c.isWhitespace = true) : isBlank c = true := by
  simp only [Char.isWhitespace, Bool.or_eq_true, decide_eq_true_eq] at h
  rcases h with ((h | h) | h) | h <;> subst h <;> decide

/-- A text is taken apart where a leading stretch of characters of a kind ends. -/
theorem span_append {p : Char → Bool} {as bs : List Char} (has : ∀ c ∈ as, p c = true)
    (hbs : ∀ c ∈ bs.head?, p c = false) :
    (as ++ bs).takeWhile p = as ∧ (as ++ bs).dropWhile p = bs := by
  rw [List.takeWhile_append_of_pos has, List.dropWhile_append_of_pos has]
  cases bs with
  | nil => exact ⟨List.append_nil as, rfl⟩
  | cons c bs =>
    have hc := hbs c rfl
    simp [hc]

/-- What follows the leading characters of a kind begins with none. -/
theorem head?_dropWhile {p : Char → Bool} (cs : List Char) :
    ∀ c ∈ (cs.dropWhile p).head?, p c = false := by
  intro c hc
  have h := List.head?_dropWhile_not p cs
  rw [Option.mem_def.1 hc] at h
  simpa using h

/-- The text without the blanks at its two ends. -/
def trim (cs : List Char) : List Char :=
  ((cs.dropWhile isBlank).reverse.dropWhile isBlank).reverse

/-- The longest stretches of characters that are not blank. -/
def words (cs : List Char) : List (List Char) :=
  (cs.splitOnP isBlank).filter fun w => !w.isEmpty

theorem ne_nil_of_mem_words {cs w : List Char} (h : w ∈ words cs) : w ≠ [] := by
  simpa using (List.mem_filter.1 h).2

/-- The lines of a text. A line feed ends a line, and a last line needs none:
no empty line follows a final line feed. -/
def lines (cs : List Char) : List (List Char) :=
  let pieces := cs.splitOn '\n'
  if pieces.getLast? = some [] then pieces.dropLast else pieces

/-- What stands before and after the first `d`, if there is one. -/
def cut? (d : Char) : List Char → Option (List Char × List Char)
  | [] => none
  | c :: cs => if c = d then some ([], cs) else (cut? d cs).map fun (a, b) => (c :: a, b)

theorem eq_append_of_cut? {d : Char} {cs a b : List Char} (h : cut? d cs = some (a, b)) :
    cs = a ++ d :: b := by
  induction cs generalizing a with
  | nil => cases h
  | cons c cs ih =>
    simp only [cut?] at h
    split at h
    · cases h; simp_all
    · obtain ⟨⟨a', b'⟩, h', e⟩ := Option.map_eq_some_iff.1 h
      cases e
      rw [ih h', List.cons_append]

/-- The part before the first `d` holds no `d`. -/
theorem notMem_of_cut? {d : Char} {cs a b : List Char} (h : cut? d cs = some (a, b)) : d ∉ a := by
  induction cs generalizing a with
  | nil => cases h
  | cons c cs ih =>
    simp only [cut?] at h
    split at h
    · cases h; simp
    · rename_i hc
      obtain ⟨⟨a', b'⟩, h', e⟩ := Option.map_eq_some_iff.1 h
      cases e
      simpa [Ne.symm hc] using ih h'

end Tablature.Text
