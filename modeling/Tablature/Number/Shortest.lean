import Tablature.Number.Binary

/-!
# The shortest decimal of a double

The reals that round to a double form an interval around it. The decimal written
for the double is the point of that interval with the fewest digits, and of those
with equally few the one nearest to the double. Where two are equally near, the
writer's `Tie` decides. All of it is exact arithmetic on whole numbers.

- `Decimal.ofBinary`: the digits of a positive finite double.
-/

namespace Tablature

/-- Which of two equally near decimals is written. -/
inductive Tie where
  /-- The one whose last digit is even. -/
  | toEven
  /-- The larger one. -/
  | away
  deriving DecidableEq, Repr

/-- A decimal written out: its digits, and how many of them stand before the point. -/
structure Decimal where
  digits : List Char
  point : Int
  deriving DecidableEq, Repr

/-- The reals that round to a positive double, as fractions of `unit`: the double is
`value / unit`. The ends belong to the interval when `closed`. -/
structure Decimal.Interval where
  low : Nat
  value : Nat
  high : Nat
  unit : Nat
  closed : Bool

namespace Decimal

namespace Interval

/-- The interval of `mantissa * 2 ^ exponent`. Below a power of two doubles lie twice as
close as above it; a tie in rounding goes to an even mantissa. -/
def ofBinary (mantissa : Nat) (exponent : Int) : Interval :=
  let quarter := exponent - 2
  let up := Nat.pow 2 quarter.toNat
  let below := if mantissa = Nat.pow 2 52 ∧ Binary.leastExponent < exponent then 1 else 2
  { low := (4 * mantissa - below) * up
    value := 4 * mantissa * up
    high := (4 * mantissa + 2) * up
    unit := Nat.pow 2 (-quarter).toNat
    closed := mantissa % 2 = 0 }

/-- How many digits stand before the point of the value; minus the number of zeros after
the point when it is below a tenth. -/
def point (i : Interval) : Int :=
  if i.unit ≤ i.value then (Nat.toDigits 10 (i.value / i.unit)).length
  else 1 - (Nat.toDigits 10 ((i.unit - 1) / i.value)).length

/-- Whether `n * 10 ^ place` lies in the interval. -/
def contains (i : Interval) (place : Int) (n : Nat) : Bool :=
  let v := n * i.unit * Nat.pow 10 place.toNat
  let scale := Nat.pow 10 (-place).toNat
  if i.closed then i.low * scale ≤ v && v ≤ i.high * scale
  else i.low * scale < v && v < i.high * scale

/-- The multiple of `10 ^ place` in the interval that is nearest to the value, if the
interval holds one. -/
def nearest? (i : Interval) (tie : Tie) (place : Int) : Option Nat :=
  let num := i.value * Nat.pow 10 (-place).toNat
  let den := i.unit * Nat.pow 10 place.toNat
  let n := num / den
  match i.contains place n, i.contains place (n + 1) with
  | false, false => none
  | true, false => some n
  | false, true => some (n + 1)
  | true, true =>
    if 2 * num < (2 * n + 1) * den then some n
    else if (2 * n + 1) * den < 2 * num then some (n + 1)
    else match tie with
      | .toEven => some (n + n % 2)
      | .away => some (n + 1)

end Interval

/-- The decimal `n * 10 ^ place`, without zeros at its end. -/
def ofMultiple (n : Nat) (place : Int) : Decimal :=
  let digits := Nat.toDigits 10 n
  { digits := (digits.reverse.dropWhile (· == '0')).reverse
    point := digits.length + place }

/-- The shortest decimal that rounds to `mantissa * 2 ^ exponent`. Seventeen digits are
always enough. -/
def ofBinary (tie : Tie) (mantissa : Nat) (exponent : Int) : Decimal :=
  let i := Interval.ofBinary mantissa exponent
  let found := (List.range 17).findSome? fun (n : Nat) =>
    let place := i.point - n - 1
    (i.nearest? tie place).map fun m => ofMultiple m place
  found.getD (ofMultiple 0 0)

end Decimal

end Tablature
