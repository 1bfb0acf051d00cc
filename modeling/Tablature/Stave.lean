import Tablature.Glyph.Draw
import Tablature.Fault
import Tablature.Work

/-!
# Staves

A stave is a grid with the glyphs written on it. Writing goes from left to right:
the cursor is the slot that the next mark belongs to.

- `Stave.place`: the stave with one more mark.
- `Stave.put`, `Stave.putSlur`: writing a mark, and a slur, where the stave stands.
- `Stave.justify`: spreads a nearly full stave to its right end.
- `toGrid_place`, `toGrid_advance`, `toGrid_justify`: writing and justifying leave
  the grid alone.
-/

namespace Tablature

/-- The tuning printed beside a stave. -/
structure CourseLabels (α : Type) where
  courses : List (List String)
  style : TextStyle α
  deriving DecidableEq, Repr

/-- A stave in the course of being written. -/
structure Stave (α : Type) extends Grid α where
  /-- Whether it is the first stave of its document. -/
  first : Bool
  labels : Option (CourseLabels α)
  /-- The slot of the next mark. -/
  cursor : Nat
  glyphs : List (Glyph α)
  /-- Where a slur began that has not ended yet. -/
  openSlur : Option Anchor
  /-- The room added to each slot, once the stave is justified. -/
  padding : Option α
  deriving DecidableEq, Repr

namespace Stave

variable {α : Type}

/-- The stave put at a point of its page, with a length. -/
def moveTo (s : Stave α) (x y length : α) : Stave α := { s with x, y, length }

/-- Leaves slots free, or goes past those just written. -/
def advance (s : Stave α) (slots : Nat) : Stave α := { s with cursor := s.cursor + slots }

@[simp]
theorem toGrid_advance (s : Stave α) (n : Nat) : (s.advance n).toGrid = s.toGrid := rfl

/-- Begins a slur at the cursor. A slur that was open is forgotten. -/
def beginSlur (s : Stave α) (course : Nat) : Stave α :=
  { s with openSlur := some ⟨s.cursor, course⟩ }

variable [Scalar α]

/-- An empty stave, not yet on a page. The first stave of a document carries the tuning if
the layout shows it. -/
def blank (l : Layout α) (first : Bool) : Stave α where
  x := 0.0
  y := 0.0
  length := l.staveLength
  slots := l.slots
  courses := l.numberOfCourses
  courseSpacing := l.courseSpacing
  orientation := l.orientation
  first
  labels := if first && l.showCourses then some ⟨l.courses, l.courseStyle⟩ else none
  cursor := 0
  glyphs := []
  openSlur := none
  padding := none

/-- The stave with one more mark. -/
def place (s : Stave α) (l : Layout α) (m : Mark) : Stave α :=
  { s with glyphs := s.glyphs ++ [m.place s.toGrid l] }

@[simp]
theorem toGrid_place (s : Stave α) (l : Layout α) (m : Mark) : (s.place l m).toGrid = s.toGrid :=
  rfl

/-! ## Writing in place -/

/-- Writes a mark. The lines that it stands on are counted for it. -/
def put (l : Layout α) (m : Mark) : Work (Stop α) (Stave α) Unit := do
  let s ← get
  if s.counts m then set (s.place l m) else throw .overflow

/-- Writes a mark that belongs to the cursor. -/
def putMark (l : Layout α) (m : Nat → Mark) : Work (Stop α) (Stave α) Unit := do
  let s ← get
  put l (m s.cursor)

/-- Ends the open slur at the cursor and writes it; there has to be one. -/
def putSlur (l : Layout α) (line course : Nat) : Work (Stop α) (Stave α) Unit := do
  let s ← get
  set { s with openSlur := none }
  match s.openSlur with
  | none => throw (.fault (.unmatchedSlur line course))
  | some start => put l (.slur start ⟨s.cursor, course⟩)

/-! ## Justification -/

/-- The room to add to each slot so that the last one written ends at the right end of the
stave. Only a stave that is more than three quarters full is given any, and only once. -/
def slack? (s : Stave α) : Option α :=
  if s.padding.isSome || s.cursor ≤ 1 then none
  else
    let spare : α := Scalar.count s.slots - Scalar.count s.cursor + 1.0
    if Scalar.count s.slots / 4.0 ≤ spare then none
    else some (spare * s.slotWidth / Scalar.count (s.cursor - 1))

/-- Spreads a nearly full stave to its right end. -/
def justify (s : Stave α) : Stave α :=
  match s.slack? with
  | none => s
  | some p => { s with glyphs := s.glyphs.map (Glyph.pad p), padding := some p }

@[simp]
theorem toGrid_justify (s : Stave α) : s.justify.toGrid = s.toGrid := by
  unfold justify; split <;> rfl

/-! ## Drawing -/

/-- The pitches of the strings of each course, left of the stave, on the line of the course
and side by side. -/
def drawLabels (s : Stave α) (labels : CourseLabels α) : List (Command α) :=
  let size := labels.style.size
  labels.courses.zipIdx.flatMap fun (strings, i) =>
    let y := s.y - 0.3 * size + s.courseOffset (i + 1)
    strings.zipIdx.map fun (pitch, j) =>
      .text pitch (s.x - (4.0 - 2.0 * Scalar.count j) * size) y size labels.style.face .left

/-- One line for each course. -/
def drawLines (s : Stave α) : List (Command α) :=
  (List.range s.courses).map fun i =>
    Drawing.horizontalLine s.x (s.courseY (i + 1)) s.length Drawing.lineWidth

/-- The tuning, the lines and the glyphs of a stave. -/
def draw (s : Stave α) : List (Command α) :=
  s.labels.elim [] s.drawLabels ++ s.drawLines ++ s.glyphs.flatMap Glyph.draw

end Stave

end Tablature
