import Tablature.Number.Numeral

/-!
# Which way up a stave is

Courses are numbered from the player's side, lines from the bottom of the stave. On a
french stave the lines are counted down from the successor of the number of courses,
which the largest count does not have.

- `Orientation.linePosition`: the line of a course.
- `Orientation.linePosition?`: the line as it is counted, if it can be.
- `linePosition_mem`: every course of a stave has a line of the stave.
-/

namespace Tablature

/-- The successor of a count, if that is a count. -/
def Count.succ? (n : Nat) : Option Nat := if n < Count.max then some (n + 1) else none

/-- The end of the stave that course one is drawn on. -/
inductive Orientation where
  /-- Course one is the bottom line. -/
  | italian
  /-- Course one is the top line. -/
  | french
  deriving DecidableEq, Repr

/-- The line of a course, counted from one at the bottom. A course above a french stave has
line zero. -/
def Orientation.linePosition (o : Orientation) (course courses : Nat) : Nat :=
  match o with
  | .italian => course
  | .french => courses + 1 - course

/-- The line of a course as it is counted. The sum that it takes on a french stave may be too
large for a count. -/
def Orientation.linePosition? (o : Orientation) (course courses : Nat) : Option Nat :=
  match o with
  | .italian => some course
  | .french => (Count.succ? courses).map (· - course)

namespace Orientation

variable {course courses : Nat}

@[simp]
theorem linePosition_italian : italian.linePosition course courses = course := rfl

/-- On a french stave the courses count from the other end. -/
@[simp]
theorem linePosition_french : french.linePosition course courses = courses + 1 - course := rfl

/-- What is counted is the line of the course. -/
theorem linePosition?_eq_some {o : Orientation} {line : Nat} :
    o.linePosition? course courses = some line ↔
      (o = .french → courses < Count.max) ∧ o.linePosition course courses = line := by
  cases o with
  | italian => simp [linePosition?]
  | french => simp [linePosition?, Count.succ?]

/-- The lines of a french stave with the largest number of courses cannot be counted. -/
theorem isSome_linePosition? {o : Orientation} :
    (o.linePosition? course courses).isSome = true ↔ (o = .french → courses < Count.max) := by
  simp [Option.isSome_iff_exists, linePosition?_eq_some]

/-- Every course of a stave is drawn on one of its lines. -/
theorem linePosition_mem (o : Orientation) (h₁ : 1 ≤ course) (h₂ : course ≤ courses) :
    1 ≤ o.linePosition course courses ∧ o.linePosition course courses ≤ courses := by
  cases o with
  | italian => exact ⟨h₁, h₂⟩
  | french => rw [linePosition_french]; omega

end Orientation

end Tablature
