import Tablature.Number.Numeral
import Tablature.Number.Binary

/-!
# Number types for lengths

A layout is computed over any type with the operations of `Scalar`. Over
doubles it is the arithmetic that is printed, rounding included; over the
rationals it is the exact arithmetic that the doubles stand for. No law is
assumed of the operations, so what is proved for every `Scalar` holds of the
rounded arithmetic too.

- `Scalar.lesser`, `Scalar.greater`: the smaller and the larger of two numbers.
-/

namespace Tablature

/-- The operations on lengths. -/
class Scalar (α : Type) extends
    Add α, Sub α, Mul α, Div α, Neg α, LE α, LT α, OfScientific α where
  decideLE : DecidableLE α
  decideLT : DecidableLT α
  /-- A count as a number. -/
  count : Nat → α
  /-- The largest whole number not above the given one. -/
  floor : α → α
  /-- The whole part as a count: nothing below zero, and never above `Count.max`. -/
  toCount : α → Nat
  /-- The number that a numeral denotes, if this type has it and it is finite. -/
  finite? : Numeral → Option α

namespace Scalar

variable {α : Type} [Scalar α]

instance (a b : α) : Decidable (a ≤ b) := decideLE a b

instance (a b : α) : Decidable (a < b) := decideLT a b

/-- The smaller of two numbers. A number that compares with nothing gives way to the other. -/
def lesser (a b : α) : α := if a ≤ b then a else if b ≤ b then b else a

/-- The larger of two numbers. A number that compares with nothing gives way to the other. -/
def greater (a b : α) : α := if b ≤ a then a else if b ≤ b then b else a

/-- The distance from one to the next larger double, two to the power of minus fifty-two. -/
def epsilon : α := 2.220446049250313080847263336181640625e-16

end Scalar

/-- The double nearest to a numeral. Powers of ten far outside the range of doubles are
settled by their size alone. -/
def Numeral.nearest : Numeral → Float
  | .decimal negative digits exponent =>
    let size := (Nat.toDigits 10 digits).length + exponent
    let magnitude :=
      if digits = 0 || size < -330 then 0.0
      else if 330 < size then 1.0 / 0.0
      else Float.ofScientific digits (exponent < 0) exponent.natAbs
    if negative then -magnitude else magnitude
  | .infinite negative => if negative then -(1.0 / 0.0) else 1.0 / 0.0
  | .undefined => 0.0 / 0.0

instance : Scalar Float where
  decideLE := inferInstance
  decideLT := inferInstance
  count := Float.ofNat
  floor := Float.wholeBelow
  toCount v := v.toUInt64.toNat
  finite? n := if n.nearest.isFinite then some n.nearest else none

/-- The rational number that a decimal numeral denotes. -/
def Numeral.rational (negative : Bool) (digits : Nat) (exponent : Int) : Rat :=
  let magnitude : Rat := OfScientific.ofScientific digits (exponent < 0) exponent.natAbs
  if negative then -magnitude else magnitude

instance : Scalar Rat where
  decideLE := inferInstance
  decideLT := inferInstance
  count n := n
  floor r := r.floor
  toCount r := Nat.min r.floor.toNat Count.max
  finite?
    | .decimal negative digits exponent => some (Numeral.rational negative digits exponent)
    | _ => none

end Tablature
