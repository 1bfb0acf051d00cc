/-!
# Numerals

How numbers are written in a source: decimal numerals with sign, point and
exponent, the words for infinity and for no number at all, and whole counts.
Reading a numeral keeps its exact value, so a number type may round it as it
likes.

- `digitsValue_append_singleton`: a further digit multiplies by ten and adds.
-/

namespace Tablature

/-- What a numeral denotes. -/
inductive Numeral where
  /-- `digits * 10 ^ exponent`, or its negative. -/
  | decimal (negative : Bool) (digits : Nat) (exponent : Int)
  | infinite (negative : Bool)
  | undefined
  deriving DecidableEq, Repr

namespace Numeral

/-- The ten ASCII digits. -/
def isDigit (c : Char) : Bool := '0' ≤ c && c ≤ '9'

/-- The whole number that a row of ASCII digits writes. -/
def digitsValue (ds : List Char) : Nat :=
  ds.foldl (fun n d => 10 * n + (d.toNat - '0'.toNat)) 0

theorem digitsValue_append_singleton (ds : List Char) (d : Char) :
    digitsValue (ds ++ [d]) = 10 * digitsValue ds + (d.toNat - '0'.toNat) := by
  simp [digitsValue]

/-- Splits a leading sign off. -/
def sign : List Char → Bool × List Char
  | '-' :: cs => (true, cs)
  | '+' :: cs => (false, cs)
  | cs => (false, cs)

/-- The words `inf`, `infinity` and `nan`, in any case. -/
def word? (negative : Bool) (cs : List Char) : Option Numeral :=
  let w := cs.map Char.toLower
  if w = "inf".toList || w = "infinity".toList then some (.infinite negative)
  else if w = "nan".toList then some .undefined
  else none

/-- The power of ten after a row of digits: nothing, or `e` and a whole number. -/
def exponent? : List Char → Option Int
  | [] => some 0
  | c :: cs =>
    let (negative, ds) := sign cs
    if (c = 'e' || c = 'E') && !ds.isEmpty && ds.all isDigit then
      some (if negative then -(digitsValue ds : Int) else digitsValue ds)
    else none

/-- The digits after a point, and what follows them. -/
def fraction : List Char → List Char × List Char
  | '.' :: cs => (cs.takeWhile isDigit, cs.dropWhile isDigit)
  | cs => ([], cs)

/-- Reads a signed decimal numeral, with at least one digit, or one of the words. -/
def read? (cs : List Char) : Option Numeral :=
  let (negative, body) := sign cs
  let whole := body.takeWhile isDigit
  let (places, rest) := fraction (body.dropWhile isDigit)
  if whole.isEmpty && places.isEmpty then word? negative body
  else (exponent? rest).map fun e =>
    .decimal negative (digitsValue (whole ++ places)) (e - places.length)

/-- Reads a whole number of at most `bound`: ASCII digits, after `+` or nothing. -/
def count? (bound : Nat) (cs : List Char) : Option Nat :=
  let ds := match cs with
    | '+' :: ds => ds
    | ds => ds
  if !ds.isEmpty && ds.all isDigit && digitsValue ds ≤ bound then some (digitsValue ds) else none

end Numeral

/-- The largest count: one below two to the sixty-fourth. -/
def Count.max : Nat := Nat.pow 2 64 - 1

/-- The largest page number: one below two to the thirty-second. -/
def PageNumber.max : Nat := Nat.pow 2 32 - 1

end Tablature
