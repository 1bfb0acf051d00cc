import Tablature.Number.Scalar

/-!
# YAML texts

How a text is written as a YAML scalar in block style. A text that would be read as
something else stands in single quotes, as does one that a plain scalar cannot hold;
a text with characters that cannot be printed stands in double quotes.

- `Yaml.readsAsOther`: whether a plain text would be read as another type.
- `Yaml.isPlain`: whether a text can stand without quotes.
- `Yaml.quote`: the written form of a text.
-/

namespace Tablature.Yaml

/-! ## Texts that read as something else -/

/-- The words for null and for the two truth values. -/
def reservedWords : List String :=
  ["null", "Null", "NULL", "~", "true", "True", "TRUE", "false", "False", "FALSE"]

/-- The words for numbers that are not finite. -/
def unboundedWords : List String :=
  [".nan", ".NaN", ".NAN", ".inf", ".Inf", ".INF", "+.inf", "+.Inf", "+.INF", "-.inf", "-.Inf",
    "-.INF"]

/-- The value of a digit in a base up to sixteen. -/
def digitValue? (base : Nat) (c : Char) : Option Nat :=
  let value? :=
    if '0' ≤ c && c ≤ '9' then some (c.toNat - '0'.toNat)
    else if 'a' ≤ c && c ≤ 'f' then some (c.toNat - 'a'.toNat + 10)
    else if 'A' ≤ c && c ≤ 'F' then some (c.toNat - 'A'.toNat + 10)
    else none
  value?.filter (· < base)

/-- The whole number that digits in a base write. There has to be one. -/
def wholeIn? (base : Nat) : List Char → Option Nat
  | [] => none
  | cs => cs.foldlM (fun n c => (digitValue? base c).map (base * n + ·)) 0

/-- The base that two characters announce, and the digits after them. -/
def splitBase? : List Char → Option (Nat × List Char)
  | '0' :: 'x' :: cs => some (16, cs)
  | '0' :: 'o' :: cs => some (8, cs)
  | '0' :: 'b' :: cs => some (2, cs)
  | _ => none

/-- A whole number in base sixteen, eight or two, of at most 128 bits. -/
def isBasedWhole (cs : List Char) : Bool :=
  let (negative, body) := Numeral.sign cs
  let whole? := (splitBase? body).bind fun (base, ds) => wholeIn? base ds
  whole?.any fun n => if negative then n ≤ Nat.pow 2 127 else n < Nat.pow 2 128

/-- Digits after a sign or none, two or more of them, the first of them a zero. -/
def hasLeadingZero (cs : List Char) : Bool :=
  match (Numeral.sign cs).2 with
  | '0' :: c :: ds => (c :: ds).all Numeral.isDigit
  | _ => false

/-- A decimal numeral that denotes a finite double. -/
def isFiniteNumber (cs : List Char) : Bool :=
  ((Numeral.read? cs).bind (Scalar.finite? (α := Float))).isSome

/-- Whether a plain text would be read as null, a truth value or a number. Digits after a
leading zero are no number, but too much like one to stand plain. -/
def readsAsOther (cs : List Char) : Bool :=
  let text := String.ofList cs
  cs.isEmpty || reservedWords.contains text || unboundedWords.contains text ||
    isBasedWhole cs || hasLeadingZero cs || isFiniteNumber cs

/-! ## Texts that can stand plain -/

/-- The line breaks of YAML. -/
def isBreak (c : Char) : Bool :=
  c == '\n' || c == '\r' || c == '\u0085' || c == '\u2028' || c == '\u2029'

/-- Blanks, tabs, line breaks and the null character separate tokens. -/
def isSeparator (c : Char) : Bool := c == ' ' || c == '\t' || c == '\x00' || isBreak c

/-- Whether a separator or the end of the text comes next. -/
def endsHere : List Char → Bool
  | [] => true
  | c :: _ => isSeparator c

/-- The characters that can be printed: no controls, no mark of byte order, no
noncharacters of the basic plane. -/
def isPrintable (c : Char) : Bool :=
  let n := c.toNat
  n == 0x0A || (0x20 ≤ n && n ≤ 0x7E) ||
    (0xA0 ≤ n && n != 0xFEFF && n != 0xFFFE && n != 0xFFFF)

/-- The characters that no plain text begins with. -/
def indicators : List Char :=
  ['#', ',', '[', ']', '\x7b', '\x7d', '&', '*', '!', '|', '>', '\'', '"', '%', '@', '`']

/-- Whether a text begins with a token of its own. -/
def startsWithIndicator : List Char → Bool
  | '-' :: '-' :: '-' :: _ => true
  | '.' :: '.' :: '.' :: _ => true
  | c :: cs => indicators.contains c || ((c == '?' || c == ':' || c == '-') && endsHere cs)
  | [] => false

/-- Whether a text holds a colon at the end of a word or a number sign at the beginning of
one; `before` is the character before it. -/
def holdsIndicator (before : Char) : List Char → Bool
  | [] => false
  | c :: cs =>
    (c == ':' && endsHere cs) || (c == '#' && isSeparator before) || holdsIndicator c cs

/-- Whether a text can stand without quotes in block style. -/
def isPlain (cs : List Char) : Bool :=
  !startsWithIndicator cs && !holdsIndicator ' ' cs && !cs.any isBreak &&
    cs.head? != some ' ' && cs.getLast? != some ' '

/-! ## Quotes -/

/-- The blanks that a line begins with after a break. -/
def margin (indent : Nat) (broken : Bool) : List Char :=
  if broken then List.replicate indent ' ' else []

/-- What stands between single quotes, after a line break or not. A quote is written twice; the
text after a line break begins at the indentation. -/
def singleQuotedBody (indent : Nat) (broken : Bool) : List Char → List Char
  | [] => margin indent broken
  | c :: cs =>
    if isBreak c then c :: singleQuotedBody indent true cs
    else
      margin indent broken ++ (if c = '\'' then ['\'', '\''] else [c]) ++
        singleQuotedBody indent false cs

/-- A text in single quotes. -/
def singleQuoted (indent : Nat) (cs : List Char) : List Char :=
  '\'' :: singleQuotedBody indent false cs ++ ['\'']

/-- A number in base sixteen, in capitals, with leading zeros. -/
def hex (width n : Nat) : List Char :=
  let ds := (Nat.toDigits 16 n).map Char.toUpper
  List.replicate (width - ds.length) '0' ++ ds

/-- The letters of the escapes with one letter. -/
def escapeLetters : List (Char × Char) :=
  [('\x00', '0'), ('\x07', 'a'), ('\x08', 'b'), ('\t', 't'), ('\n', 'n'), ('\x0b', 'v'),
    ('\x0c', 'f'), ('\r', 'r'), ('\x1b', 'e'), ('"', '"'), ('\\', '\\'), ('\u0085', 'N'),
    ('\u2028', 'L'), ('\u2029', 'P')]

/-- A character between double quotes. -/
def escapeChar (c : Char) : List Char :=
  match escapeLetters.lookup c with
  | some letter => ['\\', letter]
  | none =>
    let n := c.toNat
    if isPrintable c then [c]
    else if n ≤ 0xFF then '\\' :: 'x' :: hex 2 n
    else if n ≤ 0xFFFF then '\\' :: 'u' :: hex 4 n
    else '\\' :: 'U' :: hex 8 n

/-- A text in double quotes. -/
def doubleQuoted (cs : List Char) : List Char := '"' :: cs.flatMap escapeChar ++ ['"']

/-- Whether a blank stands next to a line break. -/
def hasBlankAtBreak : List Char → Bool
  | a :: b :: cs =>
    (a == ' ' && isBreak b) || (isBreak a && b == ' ') || hasBlankAtBreak (b :: cs)
  | _ => false

/-- The written form of a text, at an indentation. -/
def quote (indent : Nat) (text : String) : String :=
  let cs := text.toList
  String.ofList <|
    if readsAsOther cs then singleQuoted indent cs
    else if !cs.all isPrintable || hasBlankAtBreak cs then doubleQuoted cs
    else if isPlain cs then cs
    else singleQuoted indent cs

end Tablature.Yaml
