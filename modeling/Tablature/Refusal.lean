import Tablature.Number.Decimal
import Tablature.Number.Scalar

/-!
# Refused arguments

Why the argument of a directive cannot be used.

- `Refusal.message`: the reason in words.
-/

namespace Tablature

/-- What is wrong with an argument. -/
inductive Refusal where
  | notANumber (found : String)
  /-- A number that is negative, infinite or undefined where a length is needed. -/
  | notALength (found : Numeral)
  | notWhole (found : String)
  | zero
  | noFace
  /-- A course in which a string has no pitch. -/
  | emptyPitch (course : String)
  | tooManyStrings (course : String) (strings : Nat)
  | noCourses
  | notAPair (found : String)
  | notAPageNumber (found : String)
  | unknownMeter (found : String)
  | notACourseRange (found : String)
  deriving DecidableEq, Repr

/-- The reason in words. -/
def Refusal.message : Refusal → String
  | notANumber found => "expected a number, found '" ++ found ++ "'"
  | notALength found =>
    "expected a non-negative number, found " ++ NumberFormat.plain.write found.nearest
  | notWhole found => "expected a whole number, found '" ++ found ++ "'"
  | zero => "must be at least 1"
  | noFace => "expected a font name"
  | emptyPitch course => "empty pitch in course '" ++ course ++ "'"
  | tooManyStrings course strings =>
    "course '" ++ course ++ "' has " ++ toString strings ++ " strings; a course has one or two"
  | noCourses => "no courses listed"
  | notAPair found => "expected <fret>-<glyph>, found '" ++ found ++ "'"
  | notAPageNumber found => "expected a page number, found '" ++ found ++ "'"
  | unknownMeter found => "unrecognised time signature '" ++ found ++ "'"
  | notACourseRange found => "expected <course>-<course>, found '" ++ found ++ "'"

end Tablature
