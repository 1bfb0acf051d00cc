import Tablature.Number.Numeral
import Tablature.Number.Shortest

/-!
# Doubles as text

Three ways of writing a double. `NumberFormat.plain` and `NumberFormat.scientific`
write the shortest decimal that reads back, the first always with a point, the
second with an exponent for very large and very small numbers. `thousandths`
rounds to three places and cuts the zeros at the end off.

- `NumberFormat.write`: the text of a double in a format.
- `thousandths`: the text of a double to three places, without zeros at its end.
-/

namespace Tablature

/-- How the shortest decimal of a double is laid out. -/
structure NumberFormat where
  tie : Tie
  /-- The powers of ten of the first digit for which no exponent is written. -/
  positional : Int → Bool
  /-- What follows the digits of a whole number. -/
  whole : String
  infinity : String
  undefined : String

namespace NumberFormat

/-- Never an exponent, and no point in a whole number. -/
def plain : NumberFormat where
  tie := .away
  positional _ := true
  whole := ""
  infinity := "inf"
  undefined := "NaN"

/-- An exponent from `1e16` upwards and below `1e-5`, and at least one place otherwise. -/
def scientific : NumberFormat where
  tie := .toEven
  positional e := -5 ≤ e && e < 16
  whole := ".0"
  infinity := ".inf"
  undefined := ".nan"

/-- The digits around a point, filled up with zeros. -/
def positionalText (f : NumberFormat) (d : Decimal) : List Char :=
  if d.point ≤ 0 then "0.".toList ++ List.replicate (-d.point).toNat '0' ++ d.digits
  else
    let n := d.point.toNat
    if d.digits.length ≤ n then
      d.digits ++ List.replicate (n - d.digits.length) '0' ++ f.whole.toList
    else d.digits.take n ++ '.' :: d.digits.drop n

/-- One digit before the point, and a power of ten. -/
def exponentText (d : Decimal) : List Char :=
  let places := match d.digits.drop 1 with
    | [] => []
    | ds => '.' :: ds
  d.digits.take 1 ++ places ++ 'e' :: (toString (d.point - 1)).toList

/-- The text of a decimal. -/
def decimalText (f : NumberFormat) (d : Decimal) : List Char :=
  if f.positional (d.point - 1) then f.positionalText d else exponentText d

/-- A minus sign before a negative number. -/
def signed (negative : Bool) (cs : List Char) : List Char :=
  if negative then '-' :: cs else cs

/-- The text of a double. Zero has one digit and keeps its sign. -/
def write (f : NumberFormat) (v : Float) : String :=
  String.ofList <| match Binary.ofFloat v with
    | .finite negative 0 _ => signed negative (f.positionalText ⟨['0'], 1⟩)
    | .finite negative mantissa exponent =>
      signed negative (f.decimalText (Decimal.ofBinary f.tie mantissa exponent))
    | .infinite negative => signed negative f.infinity.toList
    | .undefined => f.undefined.toList

example : [0.5, 642.0, -0.0, 1e21].map plain.write =
    ["0.5", "642", "-0", "1000000000000000000000"] := by decide +kernel

example : [642.0, 1e-5, 1e-7, 1.5e16].map scientific.write =
    ["642.0", "0.00001", "1e-7", "1.5e16"] := by decide +kernel

/-- Halfway between two decimals of seventeen digits the formats differ. -/
example : plain.write (1.0 / 33554432.0) = "0.000000029802322387695313" ∧
    scientific.write (1.0 / 33554432.0) = "2.9802322387695312e-8" := by decide +kernel

end NumberFormat

/-- The three digits of a number of thousandths below one. -/
def places (n : Nat) : List Char := [n / 100 % 10, n / 10 % 10, n % 10].map Nat.digitChar

/-- A whole number of thousandths with three places behind the point. -/
def threePlaces (negative : Bool) (n : Nat) : List Char :=
  NumberFormat.signed negative (Nat.toDigits 10 (n / 1000) ++ '.' :: places (n % 1000))

/-- A double rounded to the nearest thousandth, a tie to the even one, with three places behind
the point. -/
def toThreePlaces (v : Float) : List Char :=
  match Binary.ofFloat v with
  | .finite negative mantissa exponent =>
    threePlaces negative (Binary.inParts 1000 mantissa exponent)
  | .infinite negative => NumberFormat.signed negative "inf".toList
  | .undefined => "NaN".toList

/-- The text without a character at its end, as often as it stands there. -/
def trimEnd (c : Char) (cs : List Char) : List Char := (cs.reverse.dropWhile (· == c)).reverse

/-- A double with up to three places, without zeros at the end. What is left of a zero is one
digit, without a sign. -/
def thousandths (v : Float) : String :=
  match trimEnd '.' (trimEnd '0' (toThreePlaces v)) with
  | ['-', '0'] | [] => "0"
  | cs => String.ofList cs

example : [0.0625, 14.666666, -7.5, -0.0001, 100.0].map thousandths =
    ["0.062", "14.667", "-7.5", "0", "100"] := by decide +kernel

end Tablature
