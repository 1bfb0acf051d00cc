import Tablature.Layout
import Tablature.Refusal
import Tablature.Work

/-!
# Directives

Reading the argument of a directive and putting it into the layout where it stands.

- `Layout.put`: a setting with one value.
- `Layout.putCourses`: the tuning, and with it the number of courses.
- `Layout.putFretMap`: the signs for frets.
- `Layout.set`, `Layout.setCourses`, `Layout.setFretMap`: the layouts that come of these.
-/

namespace Tablature

variable {α : Type} [Scalar α]

/-- Reads a length: a finite number that is not negative. -/
def readLength (cs : List Char) : Except Refusal α :=
  match Numeral.read? cs with
  | none => .error (.notANumber (String.ofList cs))
  | some n =>
    match Scalar.finite? n with
    | none => .error (.notALength n)
    | some v => if (0.0 : α) ≤ v then .ok v else .error (.notALength n)

/-- Reads a count of at least one. -/
def readCount (cs : List Char) : Except Refusal Nat :=
  match Numeral.count? Count.max cs with
  | none => .error (.notWhole (String.ofList cs))
  | some 0 => .error .zero
  | some n => .ok n

/-- Reads the name of a font. -/
def readFace : List Char → Except Refusal String
  | [] => .error .noFace
  | cs => .ok (String.ofList cs)

/-- Reads a course: the pitches of its one or two strings, with a dash between them. -/
def readCourse (word : List Char) : Except Refusal (List String) :=
  let pitches := word.splitOn '-'
  if pitches.any List.isEmpty then .error (.emptyPitch (String.ofList word))
  else if 2 < pitches.length then .error (.tooManyStrings (String.ofList word) pitches.length)
  else .ok (pitches.map String.ofList)

/-- Reads an entry of the fret map: a sign and its text, cut at the first dash. -/
def readFretPair (word : List Char) : Except Refusal (String × String) :=
  match Text.cut? '-' word with
  | some (a :: sign, b :: text) => .ok (String.ofList (a :: sign), String.ofList (b :: text))
  | _ => .error (.notAPair (String.ofList word))

namespace Layout

/-- Gives a setting the value that a text denotes. -/
def put (s : Setting) (value : String) : Work Refusal (Layout α) Unit := do
  let cs := Text.trim value.toList
  match s with
  | .length s =>
    let v ← ofExcept (readLength cs)
    modify fun l => l.setLength v s
  | .count s =>
    let n ← ofExcept (readCount cs)
    modify fun l => l.setCount n s
  | .face s =>
    let face ← ofExcept (readFace cs)
    modify fun l => l.setFace face s

/-- Replaces the tuning. The number of courses follows the list. -/
def putCourses (list : String) : Work Refusal (Layout α) Unit := do
  let courses ← ofExcept ((Text.words list.toList).mapM readCourse)
  if courses.isEmpty then throw .noCourses
  else modify fun l => { l with courses, numberOfCourses := courses.length }

/-- Replaces the fret map. An empty list leaves it alone. -/
def putFretMap (list : String) : Work Refusal (Layout α) Unit :=
  match Text.words list.toList with
  | [] => pure ()
  | words => do
    let pairs ← ofExcept (words.mapM readFretPair)
    modify fun l => { l with fretMap := .ofList pairs }

/-- The layout with a setting put in, or why the value is refused. -/
def set (l : Layout α) (s : Setting) (value : String) : Except Refusal (Layout α) :=
  (put s value).outcome l

/-- The layout with a tuning put in, or why the list is refused. -/
def setCourses (l : Layout α) (list : String) : Except Refusal (Layout α) :=
  (putCourses list).outcome l

/-- The layout with a fret map put in, or why the list is refused. -/
def setFretMap (l : Layout α) (list : String) : Except Refusal (Layout α) :=
  (putFretMap list).outcome l

end Layout

end Tablature
