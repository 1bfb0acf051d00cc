import Tablature.Number.Scalar
import Tablature.Mark

/-!
# The grid of a stave

Slots divide the length of a stave evenly, courses its height. A grid says where on
the page a slot and a course are.

- `Grid.slotX`, `Grid.courseY`: the point of a slot and a course.
- `Grid.isCountable`, `Grid.counts`: whether all lines, and those that a mark stands on, can be
  counted.
-/

namespace Tablature

/-- The place of a stave on its page, and how it is divided. The point `(x, y)` is the left
end of the bottom line. -/
structure Grid (α : Type) where
  x : α
  y : α
  length : α
  slots : Nat
  courses : Nat
  courseSpacing : α
  orientation : Orientation
  deriving DecidableEq, Repr

namespace Grid

variable {α : Type} [Scalar α]

/-- The distance from the bottom line to the top line. -/
def height (g : Grid α) : α := Scalar.count (g.courses - 1) * g.courseSpacing

def slotWidth (g : Grid α) : α := g.length / Scalar.count g.slots

def slotX (g : Grid α) (slot : Nat) : α := g.x + Scalar.count slot * g.slotWidth

/-- How far the line of a course lies above the bottom line. -/
def courseOffset (g : Grid α) (course : Nat) : α :=
  Scalar.count (g.orientation.linePosition course g.courses - 1) * g.courseSpacing

def courseY (g : Grid α) (course : Nat) : α := g.y + g.courseOffset course

/-- Courses are counted from one. -/
def hasCourse (g : Grid α) (course : Nat) : Bool := 1 ≤ course && course ≤ g.courses

/-- Whether the lines can be counted. It is one for all courses. -/
def isCountable (g : Grid α) : Bool := (g.orientation.linePosition? 1 g.courses).isSome

/-- Whether the lines that a mark stands on can be counted. -/
def counts (g : Grid α) (m : Mark) : Bool :=
  (m.courses g.courses).all fun course => (g.orientation.linePosition? course g.courses).isSome

end Grid

end Tablature
