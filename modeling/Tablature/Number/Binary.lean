/-!
# Doubles taken apart

A finite double is a sign, a mantissa and a power of two. Everything here is
exact arithmetic on those three, so it says what a double is worth without
rounding.

- `Binary.ofFloat`: the parts of a double.
- `Float.wholeBelow`: the largest whole number not above a double.
-/

namespace Tablature

/-- What a double stands for. -/
inductive Binary where
  /-- `mantissa * 2 ^ exponent`, or its negative. -/
  | finite (negative : Bool) (mantissa : Nat) (exponent : Int)
  | infinite (negative : Bool)
  | undefined
  deriving DecidableEq, Repr

namespace Binary

/-- The exponent of the smallest positive double. -/
def leastExponent : Int := -1074

/-- Reads the sign, exponent and fraction fields of a double. -/
def ofFloat (v : Float) : Binary :=
  let bits : Nat := v.toBits.toNat
  let negative : Bool := Nat.pow 2 63 ≤ bits
  let field : Nat := bits / Nat.pow 2 52 % Nat.pow 2 11
  let fraction : Nat := bits % Nat.pow 2 52
  if field = 2047 then
    if fraction = 0 then .infinite negative else .undefined
  else if field = 0 then .finite negative fraction leastExponent
  else .finite negative (Nat.pow 2 52 + fraction) ((field : Int) - 1075)

/-- The quotient of two whole numbers, rounded to the nearest, a tie to the even one. -/
def roundDiv (num den : Nat) : Nat :=
  let q := num / den
  let r := num % den
  if 2 * r < den then q
  else if den < 2 * r then q + 1
  else q + q % 2

/-- The value of `mantissa * 2 ^ exponent` in units of `1 / parts`, rounded to the
nearest, a tie to the even one. -/
def inParts (parts mantissa : Nat) (exponent : Int) : Nat :=
  roundDiv (mantissa * parts * Nat.pow 2 exponent.toNat) (Nat.pow 2 (-exponent).toNat)

end Binary

/-- The largest whole number not above `v`; zeros, infinities and undefined values
are their own. -/
def Float.wholeBelow (v : Float) : Float :=
  match Binary.ofFloat v with
  | .finite negative mantissa exponent =>
    if 0 ≤ exponent then v
    else
      let den := Nat.pow 2 (-exponent).toNat
      if negative then -Float.ofNat ((mantissa + den - 1) / den) else Float.ofNat (mantissa / den)
  | _ => v

end Tablature
