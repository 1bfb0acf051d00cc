import Tablature.Number.Scalar

/-!
# Drawings

A drawing is a list of commands that are carried out in order. Lengths are points,
the origin is the lower left corner of a page, and heights grow upwards. The
shapes here are lists of commands, so a drawing is built by appending them.

- `Command.shift`: a command moved to the right.
-/

namespace Tablature

/-- How a text stands to its `x`. -/
inductive Align where
  /-- The text begins there. -/
  | left
  /-- The middle of the text is there. -/
  | centre
  /-- The text ends there. -/
  | right
  deriving DecidableEq, Repr

/-- A drawing command. -/
inductive Command (α : Type) where
  | line (x₁ y₁ x₂ y₂ width : α)
  /-- Part of a circle from `start` to `stop` degrees, against the clock unless
  `clockwise`. -/
  | arc (x y radius start stop : α) (clockwise filled : Bool) (width : α)
  /-- A curve from the first point to the third, bent towards the second. -/
  | curve (x₁ y₁ x₂ y₂ x₃ y₃ width : α)
  | text (text : String) (x y size : α) (face : String) (align : Align)
  /-- The colour of everything after it; each part lies between zero and one. -/
  | colour (red green blue : α)
  | pageBreak
  deriving DecidableEq, Repr

variable {α : Type} [Scalar α]

namespace Command

/-- The command drawn `d` further to the right. -/
def shift (d : α) : Command α → Command α
  | line x₁ y₁ x₂ y₂ width => line (x₁ + d) y₁ (x₂ + d) y₂ width
  | arc x y radius start stop clockwise filled width =>
    arc (x + d) y radius start stop clockwise filled width
  | curve x₁ y₁ x₂ y₂ x₃ y₃ width => curve (x₁ + d) y₁ (x₂ + d) y₂ (x₃ + d) y₃ width
  | text t x y size face align => text t (x + d) y size face align
  | colour red green blue => colour red green blue
  | pageBreak => pageBreak

end Command

namespace Drawing

/-- The width of stave lines, barlines and ornaments. -/
def lineWidth : α := 0.5

/-- A line upwards from `y`, or downwards if the height is negative. -/
def verticalLine (x y height width : α) : Command α := .line x y x (y + height) width

def horizontalLine (x y length width : α) : Command α := .line x y (x + length) y width

def circle (x y radius : α) (filled : Bool) : Command α :=
  .arc x y radius 0.0 360.0 false filled lineWidth

/-- The upper half of a circle. -/
def overSemicircle (x y radius : α) : Command α := .arc x y radius 0.0 180.0 false false 1.0

/-- The lower half of a circle. -/
def underSemicircle (x y radius : α) : Command α := .arc x y radius 0.0 180.0 true false 1.0

def curve (x₁ y₁ x₂ y₂ x₃ y₃ : α) : Command α := .curve x₁ y₁ x₂ y₂ x₃ y₃ lineWidth

def black : Command α := .colour 0.0 0.0 0.0

/-- The outline of a rectangle with its lower left corner at the point. -/
def rectangle (x y width height thickness : α) : List (Command α) :=
  [verticalLine x y height thickness, verticalLine (x + width) y height thickness,
    horizontalLine x y width thickness, horizontalLine x (y + height) width thickness]

/-- A rectangle with its two diagonals. -/
def crossedRectangle (x y width height thickness : α) : List (Command α) :=
  rectangle x y width height thickness ++
    [.line x y (x + width) (y + height) thickness, .line x (y + height) (x + width) y thickness]

/-- A triangle on a level base, with its tip above the middle; below it if the height is
negative. -/
def triangle (x y width height thickness : α) : List (Command α) :=
  let tipX := x + width / 2.0
  let tipY := y + height
  [horizontalLine x y width thickness, .line x y tipX tipY thickness,
    .line (x + width) y tipX tipY thickness]

end Drawing

end Tablature
