import Tablature.Document
import Tablature.Layout.Directive
import Tablature.Score.Argument

/-!
# Scores

A score is a document in the course of being written, with the layout in force.
Lines are written one by one, each on the score as it stands: a line that cannot be
written as a whole leaves what it has written by then.

- `Score.put`: writes a line.
- `Score.step`, `Score.feed`: the score that comes of a line, if it can be written; the
  score that it leaves behind, and what has stopped it.
- `Score.parse`: the document of a source, or what has stopped it.
- `stepAll_append`: a source can be written in two parts.
-/

namespace Tablature

variable {α : Type} [Scalar α]

namespace Stave

/-- Refuses a course that the stave does not have. -/
def checkCourse (s : Stave α) (line course : Nat) : Except (Stop α) Unit :=
  if s.hasCourse course then .ok ()
  else .error (.fault (.courseOutOfRange line course s.courses))

/-- Writes a note token at the cursor. -/
def putToken (l : Layout α) (line : Nat) (token : List Char) : Work (Stop α) (Stave α) Unit :=
  match NoteToken.read? token with
  | none => throw (.fault (.malformedNote line (String.ofList token)))
  | some t => do
    let s ← get
    ofExcept (s.checkCourse line t.course)
    match t.sign with
    | .fret text => putMark l (.note · t.course text)
    | .semicircle side => putMark l (.semicircle side · t.course)
    | .slurBegin => modify fun s => s.beginSlur t.course
    | .slurEnd => putSlur l line t.course

/-- The stave with a note token on it, or what has stopped it. -/
def writeToken (l : Layout α) (line : Nat) (s : Stave α) (token : List Char) :
    Except (Stop α) (Stave α) :=
  (putToken l line token).outcome s

/-- Writes the rhythm sign of a note line, if it has one. -/
def putRhythm (l : Layout α) : Option Rhythm → Work (Stop α) (Stave α) Unit
  | none => pure ()
  | some r => putMark l (.tick · r)

/-- Writes a note line: its rhythm sign, and its tokens from left to right. -/
def putNotes (l : Layout α) (line : Nat) (rhythm : Option Rhythm) (tokens : String) :
    Work (Stop α) (Stave α) Unit := do
  putRhythm l rhythm
  (Text.words tokens.toList).forM (putToken l line)
  modify fun v => v.advance 1

end Stave

/-- A document in the course of being written, and the layout in force. -/
structure Score (α : Type) where
  layout : Layout α
  document : Document α
  deriving DecidableEq, Repr

namespace Score

/-- The score before the first line. -/
def empty : Score α := ⟨.initial, .empty⟩

/-- The page that a line of this kind stands on. -/
def pageFor (s : Score α) (n : NumberedLine) : Except (Stop α) (Page α) :=
  match s.document.currentPage? with
  | some p => .ok p
  | none => .error (.fault (.noPage n.number n.line.name))

/-- The stave that a line of this kind stands on. -/
def staveFor (s : Score α) (n : NumberedLine) : Except (Stop α) (Stave α) := do
  let p ← s.pageFor n
  match p.currentStave? with
  | some v => .ok v
  | none => .error (.fault (.noStave n.number n.line.name))

/-- The fault that the argument of a line is refused. -/
def refuse (n : NumberedLine) (r : Refusal) : Stop α :=
  .fault (.malformedDirective n.number n.line.name r)

/-- The argument of a line, or the fault that it is refused. -/
def argument {β : Type} (n : NumberedLine) (r : Except Refusal β) : Except (Stop α) β :=
  r.mapError (refuse n)

def setLayout (s : Score α) (layout : Layout α) : Score α := { s with layout }

def setPage (s : Score α) (p : Page α) : Score α :=
  { s with document := s.document.setCurrentPage p }

def setStave (s : Score α) (v : Stave α) : Score α :=
  { s with document := s.document.setCurrentStave v }

/-- Begins a page. -/
def addPage (s : Score α) (number : Nat) : Score α :=
  { s with document := s.document.addPage (.blank s.layout number s.document.isEmpty) }

/-- Whether the next stave is the first of the document: the first on its only page. -/
def beforeFirstStave (s : Score α) (p : Page α) : Bool :=
  s.document.pages.length == 1 && p.staves.isEmpty

/-! ## Writing in place -/

/-- Changes the layout. -/
def onLayout (n : NumberedLine) (w : Work Refusal (Layout α) Unit) :
    Work (Stop α) (Score α) Unit := do
  let s ← get
  Work.within s.layout setLayout (w.adaptExcept (refuse n))

/-- Writes on the page that a line stands on. -/
def onPage (n : NumberedLine) (w : Work (Stop α) (Page α) Unit) : Work (Stop α) (Score α) Unit := do
  let s ← get
  let p ← ofExcept (s.pageFor n)
  Work.within p setPage w

/-- Writes on the stave that a line stands on. -/
def onStave (n : NumberedLine) (w : Work (Stop α) (Stave α) Unit) :
    Work (Stop α) (Score α) Unit := do
  let s ← get
  let v ← ofExcept (s.staveFor n)
  Work.within v setStave w

/-- The slots that a time signature takes. -/
def meterSlots : Nat := 3

/-- The courses that a barberpole line names, checked against the stave in order. -/
def barberpoleRange (n : NumberedLine) (v : Stave α) (range : String) :
    Except (Stop α) (Option (Nat × Nat)) := do
  if range.isEmpty then return none
  let (first, last) ← argument n (readCourseRange range)
  v.checkCourse n.number first
  v.checkCourse n.number last
  return some (first, last)

/-- Writes a line. -/
def put (n : NumberedLine) : Work (Stop α) (Score α) Unit := do
  let s ← get
  let l := s.layout
  match n.line with
  | .page number =>
    let number ← ofExcept (argument n (readPageNumber number))
    modify fun s => s.addPage number
  | .stave =>
    onPage n do
      let p ← get
      Page.putStave (.blank l (s.beforeFirstStave p))
  | .timeSignature figures =>
    let meter ← ofExcept (argument n (readMeter figures))
    onStave n do
      Stave.putMark l (.timeSignature · meter)
      modify fun v => v.advance meterSlots
  | .barline kind label =>
    onStave n do
      Stave.putMark l (.barline kind · (if label.isEmpty then none else some label))
      modify fun v => if kind.takesSlot then v.advance 1 else v
  | .barberpole range =>
    onStave n do
      let v ← get
      let range ← ofExcept (barberpoleRange n v range)
      Stave.putMark l (.barberpole · range)
  | .notes rhythm tokens => onStave n (Stave.putNotes l n.number rhythm tokens)
  | .strum pattern => onStave n (Stave.putMark l fun slot => .strum (slot - 1) pattern)
  | .alfabeto chord => onStave n (Stave.putMark l (.alfabeto · chord))
  | .sectionSign => onStave n (Stave.putMark l fun slot => .sectionSign (slot - 1))
  | .title text => onPage n (modify fun p => p.setTitle l text)
  | .composer text => onPage n (modify fun p => p.setComposer l text)
  | .blank =>
    match s.document.currentStave? with
    | some v => set (s.setStave (v.advance 1))
    | none => pure ()
  | .setting setting value => onLayout n (Layout.put setting value)
  | .courses list => onLayout n (Layout.putCourses list)
  | .flag flag => modify fun s => s.setLayout (s.layout.setFlag flag)
  | .fretMap list => onLayout n (Layout.putFretMap list)
  | .comment | .ignored => pure ()

/-- The score with a line written on it, or what has stopped the line. -/
def step (s : Score α) (n : NumberedLine) : Except (Stop α) (Score α) := (put n).outcome s

/-- The score that a line leaves behind, and what has stopped the line, if anything. -/
def feed (s : Score α) (n : NumberedLine) : Score α × Option (Stop α) :=
  ((put n).after s, (put n).stop? s)

/-- Writes lines up to the first that cannot be written. -/
def stepAll (s : Score α) (lines : List NumberedLine) : Except (Stop α) (Score α) :=
  lines.foldlM step s

/-- The finished document, justified if a line has asked for it. -/
def finish (s : Score α) : Document α :=
  if s.layout.justified then s.document.justify else s.document

/-- The document that a source writes, or what has stopped it. -/
def parse (source : String) : Except (Stop α) (Document α) :=
  (empty.stepAll (Line.tokenize source)).map finish

/-- A source can be written in two parts. -/
theorem stepAll_append (s : Score α) (a b : List NumberedLine) :
    s.stepAll (a ++ b) = (s.stepAll a).bind fun s => s.stepAll b :=
  List.foldlM_append

end Score

end Tablature
