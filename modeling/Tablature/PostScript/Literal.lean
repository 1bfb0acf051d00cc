/-!
# String literals

How a text is written between the parentheses of a PostScript string, for fonts with
the Latin-1 encoding.

- `escape_append`: a text without backslashes can be escaped in parts.
- `toNat_lt_of_mem_escape`: an escaped text holds only ASCII characters.
-/

namespace Tablature.PostScript

/-- The eight octal digits. -/
def isOctalDigit (c : Char) : Bool := '0' ≤ c && c ≤ '7'

/-- Whether three octal digits come next. -/
def startsOctal : List Char → Bool
  | a :: b :: c :: _ => isOctalDigit a && isOctalDigit b && isOctalDigit c
  | _ => false

/-- The three octal digits of a byte. -/
def octal (n : Nat) : List Char := [n / 64 % 8, n / 8 % 8, n % 8].map Nat.digitChar

/-- A character that is not part of an escape already written in the text. Backslashes and
parentheses are escaped, other Latin-1 characters beyond ASCII become octal escapes, and what
is not in Latin-1 becomes a question mark. -/
def escapeChar (c : Char) : List Char :=
  if c = '\\' then ['\\', '\\']
  else if c = '(' then ['\\', '(']
  else if c = ')' then ['\\', ')']
  else if c.toNat < 0x80 then [c]
  else if c.toNat ≤ 0xFF then '\\' :: octal c.toNat
  else ['?']

/-- The body of a string literal. A backslash before three octal digits is an escape that the
text already holds, and stays. -/
def escape : List Char → List Char
  | [] => []
  | c :: cs => (if c = '\\' && startsOctal cs then ['\\'] else escapeChar c) ++ escape cs

/-- Without backslashes a text can be escaped in parts. -/
theorem escape_append {s : List Char} (h : '\\' ∉ s) (t : List Char) :
    escape (s ++ t) = escape s ++ escape t := by
  induction s with
  | nil => rfl
  | cons c s ih =>
    have hc : c ≠ '\\' := fun e => h (e ▸ List.mem_cons_self)
    simp [escape, hc, ih fun m => h (List.mem_cons_of_mem _ m)]

theorem toNat_lt_of_mem_octal {n : Nat} {c : Char} (h : c ∈ octal n) : c.toNat < 0x80 := by
  have digit : ∀ d < 8, (Nat.digitChar d).toNat < 0x80 := by decide
  simp only [octal, List.map_cons, List.map_nil, List.mem_cons, List.not_mem_nil, or_false] at h
  rcases h with h | h | h <;> subst h <;> exact digit _ (Nat.mod_lt _ (by decide))

theorem toNat_lt_of_mem_escapeChar {c d : Char} (h : c ∈ escapeChar d) : c.toNat < 0x80 := by
  have escaped : ∀ e ∈ ['\\', '(', ')', '?'], e.toNat < 0x80 := by simp
  unfold escapeChar at h
  grind [toNat_lt_of_mem_octal]

/-- An escaped text holds only ASCII characters. -/
theorem toNat_lt_of_mem_escape {s : List Char} {c : Char} (h : c ∈ escape s) :
    c.toNat < 0x80 := by
  induction s with
  | nil => cases h
  | cons d s ih =>
    rw [escape, List.mem_append] at h
    refine h.elim (fun h => ?_) ih
    split at h
    · rw [List.mem_singleton.1 h]; decide
    · exact toNat_lt_of_mem_escapeChar h

end Tablature.PostScript
