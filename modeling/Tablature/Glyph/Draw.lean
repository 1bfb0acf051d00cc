import Tablature.Glyph
import Tablature.Drawing

/-!
# Drawing glyphs

The commands that draw each kind of glyph. A drawing depends on nothing but the
glyph, and leaves the colour black.

- `Glyph.draw`: the drawing of a glyph.
-/

namespace Tablature

open Drawing

variable {α : Type} [Scalar α]

/-- The font of figures and signs that have no style of their own. -/
def signFace : String := "Times-Roman"

namespace Tick

def stemHeight : α := 14.0

/-- How far a tail reaches to the right and downwards. -/
def tailReach : α := 4.0

def tailSpacing : α := 3.0

/-- A tail, counted from the top of the stem. -/
def tail (t : Tick α) (n : Nat) : Command α :=
  let top := t.y + stemHeight - Scalar.count n * tailSpacing
  .line t.x top (t.x + tailReach) (top - tailReach) lineWidth

/-- A stem with its tails, the head, and a dot for a dotted value. -/
def draw (t : Tick α) : List (Command α) :=
  let value := t.rhythm.duration
  (if value.hasStem then [verticalLine t.x t.y stemHeight lineWidth] else []) ++
    (List.range value.tails).map t.tail ++
    [circle (t.x - t.bodyRadius) t.y t.bodyRadius !value.isHollow] ++
    if t.rhythm.dotted then [circle (t.x + 3.0) t.y 1.0 true] else []

end Tick

namespace Barline

/-- A stroke of the height of the stave. -/
def longStroke (b : Barline α) (x : α) (width : α) : Command α :=
  verticalLine x b.y b.height width

/-- A stroke between the outer courses. -/
def shortStroke (b : Barline α) (x : α) : Command α :=
  verticalLine x b.shortY b.shortHeight lineWidth

/-- The strokes of each kind of barline. -/
def strokes (b : Barline α) : List (Command α) :=
  let left := b.x - b.spacing
  match b.kind with
  | .single => [b.longStroke b.x lineWidth]
  | .double => [b.longStroke left lineWidth, b.longStroke b.x lineWidth]
  | .short => [b.shortStroke left, b.shortStroke b.x]
  | .longShort => [b.longStroke left lineWidth, b.shortStroke b.x]
  | .triple => [b.longStroke b.x lineWidth, b.shortStroke (b.x + b.spacing), b.shortStroke left]
  | .final => [b.longStroke left lineWidth, b.longStroke b.x 2.0]

/-- A label above the barline, in blue. -/
def drawLabel (b : Barline α) (label : String) : List (Command α) :=
  [.colour 0.0 0.0 1.0,
    .text label (b.x - b.labelSize / 2.0) (b.y + b.height + b.labelSize / 2.0) b.labelSize
      b.labelFace .left,
    black]

def draw (b : Barline α) : List (Command α) := b.strokes ++ (b.label.elim [] b.drawLabel)

end Barline

namespace Barberpole

/-- The offsets from `offset` in steps of `spacing` that stay below `bound`, at most `fuel`
of them. -/
def offsets (spacing bound : α) : Nat → α → List α
  | 0, _ => []
  | fuel + 1, offset =>
    if offset < bound then offset :: offsets spacing bound fuel (offset + spacing) else []

/-- The feet of the boxes above the bottom line: one step of the course spacing after the
other, from the lowest covered course to just below the highest. Where a foot lies so high that
a step leaves it as it is there is no last box, and drawing does not come to an end: the list,
which breaks off after the largest count, then is not what is drawn. -/
def boxes (b : Barberpole α) : List α :=
  offsets b.courseSpacing (b.upper - Scalar.epsilon) Count.max b.lower

/-- Triangles that flare out past the stave, a circle beyond each, and a crossed box for each
gap between two covered courses. -/
def draw (b : Barberpole α) : List (Command α) :=
  let flare := b.courseSpacing * 0.75
  let radius := b.width / 2.5
  let middle := b.x + b.width / 2.0
  triangle b.x (b.y + b.upper) b.width (b.staveHeight - b.upper + flare) lineWidth ++
    triangle b.x (b.y + b.lower) b.width (-b.lower - flare) lineWidth ++
    [circle middle (b.y - flare - radius) radius false,
      circle middle (b.y + b.staveHeight + flare + radius) radius false] ++
    b.boxes.flatMap fun offset =>
      crossedRectangle b.x (b.y + offset) b.width b.courseSpacing lineWidth

end Barberpole

namespace TimeSignature

def figure (t : TimeSignature α) (text : String) (y : α) : Command α :=
  .text text t.x y t.size signFace .left

def draw (t : TimeSignature α) : List (Command α) :=
  match t.meter with
  | .single figure => [t.figure figure t.y]
  | .fraction top bottom => [t.figure top t.topY, t.figure bottom t.y]
  | .common => [t.figure "C" t.y]
  | .cut =>
    [t.figure "C" t.y,
      verticalLine (t.x + t.size / 3.0) (t.y - t.size / 4.0) (t.size + t.size / 4.0) 1.0]

end TimeSignature

namespace Strum

/-- A stroke at a distance from the slot, if the character is one. -/
def stroke? (s : Strum α) (offset : α) (c : Char) : Option (Command α) :=
  let height := s.strokeSpacing * 1.5
  if c = 'U' then some (verticalLine (s.x + offset) s.y height 1.0)
  else if c = 'D' then some (verticalLine (s.x + offset) s.y (-height) 1.0)
  else none

/-- The strokes of a pattern, each one step to the right of the character before it. -/
def strokes (s : Strum α) : α → List Char → List (Command α)
  | _, [] => []
  | offset, c :: cs =>
    let next := offset + s.strokeSpacing
    (s.stroke? next c).toList ++ strokes s next cs

/-- The strokes of the pattern, in red. -/
def draw (s : Strum α) : List (Command α) :=
  .colour 1.0 0.0 0.0 :: s.strokes s.strokeSpacing s.pattern.toList ++ [black]

end Strum

/-- The drawing of a glyph. -/
def Glyph.draw : Glyph α → List (Command α)
  | note n => [.text n.text n.x n.y n.size n.face .left]
  | tick t => t.draw
  | barline b => b.draw
  | barberpole b => b.draw
  | timeSignature t => t.draw
  | semicircle s =>
    match s.side with
    | .over => [overSemicircle s.x s.y s.radius]
    | .under => [underSemicircle s.x s.y s.radius]
  | slur s => [curve s.x₁ s.y₁ s.x₂ s.y₂ s.x₃ s.y₃]
  | sectionSign s => [.text "§" s.x s.y s.size signFace .left]
  | alfabeto a => [.text a.chord a.x a.y a.size a.face .left]
  | strum s => s.draw

end Tablature
