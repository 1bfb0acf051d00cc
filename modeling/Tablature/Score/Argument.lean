import Tablature.Line
import Tablature.Refusal

/-!
# Arguments of content lines

Reading what stands after the sign of a line: page numbers, meters, ranges of
courses, and the tokens of a note line.

- `NoteToken.read?`: a course, a dash, and what is written on the course.
-/

namespace Tablature

/-- The name of a line's kind in messages. Lines that cannot fail have none. -/
def Line.name : Line → String
  | .page _ => "P-"
  | .stave => "S-"
  | .timeSignature _ => "T-"
  | .barline _ _ => "barline"
  | .barberpole _ => "BP-"
  | .notes _ _ => "note"
  | .strum _ => "R-"
  | .alfabeto _ => "AB-"
  | .sectionSign => "SECTION"
  | .title _ => "TITLE"
  | .composer _ => "COMPOSER"
  | .setting s _ => s.keyword
  | .courses _ => "COURSES"
  | .fretMap _ => "FRETMAP"
  | .blank | .flag _ | .comment | .ignored => ""

/-- Reads a page number: the first word of the argument, the others being free. -/
def readPageNumber (number : String) : Except Refusal Nat :=
  let word := (Text.words number.toList).head?.getD []
  match Numeral.count? PageNumber.max word with
  | some n => .ok n
  | none => .error (.notAPageNumber (String.ofList word))

/-- Reads a meter: the sign for common time with or without a stroke, one figure, or two
figures with a dash between them. -/
def readMeter (figures : String) : Except Refusal Meter :=
  if figures = "C" then .ok .common
  else if figures = "C|" then .ok .cut
  else match figures.toList.splitOn '-' with
    | [a :: figure] => .ok (.single (String.ofList (a :: figure)))
    | [a :: top, b :: bottom] =>
      .ok (.fraction (String.ofList (a :: top)) (String.ofList (b :: bottom)))
    | _ => .error (.unknownMeter figures)

/-- Reads a range of courses: two whole numbers with a dash between them. -/
def readCourseRange (range : String) : Except Refusal (Nat × Nat) :=
  let ends : Option (Nat × Nat) := do
    let (first, last) ← Text.cut? '-' range.toList
    pure (← Numeral.count? Count.max first, ← Numeral.count? Count.max last)
  match ends with
  | some ends => .ok ends
  | none => .error (.notACourseRange range)

/-- What a note token writes on its course. -/
inductive NoteSign where
  | fret (text : String)
  | semicircle (side : Side)
  | slurBegin
  | slurEnd
  deriving DecidableEq, Repr

/-- A note token: a course and what is written on it. -/
structure NoteToken where
  course : Nat
  sign : NoteSign
  deriving DecidableEq, Repr

/-- The four brackets are signs of their own; anything else is a fret. -/
def NoteSign.ofText (text : String) : NoteSign :=
  if text = "\x7b" then .semicircle .over
  else if text = "\x7d" then .semicircle .under
  else if text = "[" then .slurBegin
  else if text = "]" then .slurEnd
  else .fret text

/-- Reads a note token. Everything after the first dash is its sign, further dashes
included, and there has to be something. -/
def NoteToken.read? (token : List Char) : Option NoteToken := do
  let (course, sign) ← Text.cut? '-' token
  let course ← Numeral.count? Count.max course
  if sign.isEmpty then none else some ⟨course, .ofText (String.ofList sign)⟩

end Tablature
