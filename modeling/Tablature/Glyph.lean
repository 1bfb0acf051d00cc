import Tablature.Mark
import Tablature.Grid
import Tablature.Layout

/-!
# Glyphs

A glyph is a mark with its style and its place on the page. The style is copied from
the layout, the place from the grid of the stave; after that the glyph depends on
neither. Placing keeps the two steps apart: `Mark.styled` gives a mark its style,
`Glyph.setOn` puts it on a grid, and `Mark.place` does both.

- `Glyph.mark`: the musical content of a glyph.
- `mark_place`: placing a mark keeps its content.
- `mark_pad`: padding keeps it too.
-/

namespace Tablature

structure Note (α : Type) where
  slot : Nat
  course : Nat
  /-- The fret as it is written. -/
  fret : String
  /-- The fret as it is printed. -/
  text : String
  x : α
  y : α
  size : α
  face : String
  deriving DecidableEq, Repr

structure Tick (α : Type) where
  slot : Nat
  rhythm : Rhythm
  x : α
  y : α
  bodyRadius : α
  deriving DecidableEq, Repr

structure Barline (α : Type) where
  kind : BarlineKind
  slot : Nat
  label : Option String
  x : α
  y : α
  height : α
  /-- The foot of the short strokes. -/
  shortY : α
  shortHeight : α
  spacing : α
  labelSize : α
  labelFace : String
  deriving DecidableEq, Repr

structure Barberpole (α : Type) where
  slot : Nat
  /-- The courses it covers as they are written; all of them if none are. -/
  range : Option (Nat × Nat)
  x : α
  y : α
  width : α
  staveHeight : α
  courseSpacing : α
  /-- How far the lowest covered course lies above the bottom line. -/
  lower : α
  /-- How far the highest covered course lies above the bottom line. -/
  upper : α
  deriving DecidableEq, Repr

structure TimeSignature (α : Type) where
  slot : Nat
  meter : Meter
  x : α
  y : α
  /-- The baseline of the upper figure of a fraction. -/
  topY : α
  size : α
  deriving DecidableEq, Repr

structure Semicircle (α : Type) where
  side : Side
  slot : Nat
  course : Nat
  x : α
  y : α
  radius : α
  deriving DecidableEq, Repr

structure Slur (α : Type) where
  start : Anchor
  stop : Anchor
  x₁ : α
  y₁ : α
  x₂ : α
  y₂ : α
  x₃ : α
  y₃ : α
  deriving DecidableEq, Repr

structure SectionSign (α : Type) where
  slot : Nat
  x : α
  y : α
  size : α
  deriving DecidableEq, Repr

structure Alfabeto (α : Type) where
  slot : Nat
  chord : String
  x : α
  y : α
  size : α
  face : String
  deriving DecidableEq, Repr

structure Strum (α : Type) where
  slot : Nat
  pattern : String
  x : α
  y : α
  strokeSpacing : α
  deriving DecidableEq, Repr

/-- A mark with its style and its place on the page. -/
inductive Glyph (α : Type) where
  | note (n : Note α)
  | tick (t : Tick α)
  | barline (b : Barline α)
  | barberpole (b : Barberpole α)
  | timeSignature (t : TimeSignature α)
  | semicircle (s : Semicircle α)
  | slur (s : Slur α)
  | sectionSign (s : SectionSign α)
  | alfabeto (a : Alfabeto α)
  | strum (s : Strum α)
  deriving DecidableEq, Repr

variable {α : Type}

/-- The musical content of a glyph. -/
def Glyph.mark : Glyph α → Mark
  | note n => .note n.slot n.course n.fret
  | tick t => .tick t.slot t.rhythm
  | barline b => .barline b.kind b.slot b.label
  | barberpole b => .barberpole b.slot b.range
  | timeSignature t => .timeSignature t.slot t.meter
  | semicircle s => .semicircle s.side s.slot s.course
  | slur s => .slur s.start s.stop
  | sectionSign s => .sectionSign s.slot
  | alfabeto a => .alfabeto a.slot a.chord
  | strum s => .strum s.slot s.pattern

variable [Scalar α]

/-- The mark with the style that the layout gives it, not yet put anywhere. -/
def Mark.styled (l : Layout α) : Mark → Glyph α
  | .note slot course fret =>
    .note
      { slot, course, fret, text := l.fretText fret, x := 0.0, y := 0.0,
        size := l.fretStyle.size, face := l.fretStyle.face }
  | .tick slot rhythm => .tick { slot, rhythm, x := 0.0, y := 0.0, bodyRadius := l.tickRadius }
  | .barline kind slot label =>
    .barline
      { kind, slot, label, x := 0.0, y := 0.0, height := 0.0, shortY := 0.0, shortHeight := 0.0,
        spacing := l.barlineSpacing, labelSize := l.barlineStyle.size,
        labelFace := l.barlineStyle.face }
  | .barberpole slot range =>
    .barberpole
      { slot, range, x := 0.0, y := 0.0, width := l.barberpoleSpacing, staveHeight := 0.0,
        courseSpacing := 0.0, lower := 0.0, upper := 0.0 }
  | .timeSignature slot meter =>
    .timeSignature { slot, meter, x := 0.0, y := 0.0, topY := 0.0, size := 0.0 }
  | .semicircle side slot course =>
    .semicircle { side, slot, course, x := 0.0, y := 0.0, radius := l.semicircleRadius }
  | .slur start stop =>
    .slur { start, stop, x₁ := 0.0, y₁ := 0.0, x₂ := 0.0, y₂ := 0.0, x₃ := 0.0, y₃ := 0.0 }
  | .sectionSign slot => .sectionSign { slot, x := 0.0, y := 0.0, size := l.sectionSize }
  | .alfabeto slot chord =>
    .alfabeto { slot, chord, x := 0.0, y := 0.0, size := l.chordSize, face := l.alfabetoFace }
  | .strum slot pattern =>
    .strum { slot, pattern, x := 0.0, y := 0.0, strokeSpacing := l.fretStyle.size / 2.0 }

/-! ## Places on a grid -/

/-- A fret sign stands on the line of its course, lowered by a third of its size. -/
def Note.setOn (g : Grid α) (n : Note α) : Note α :=
  { n with x := g.slotX n.slot, y := g.courseY n.course - Scalar.floor (n.size / 3.0) }

/-- A rhythm sign stands one course above the stave. -/
def Tick.setOn (g : Grid α) (t : Tick α) : Tick α :=
  { t with
    x := g.slotX t.slot + 2.0 * t.bodyRadius
    y := g.y + g.height + g.courseSpacing }

/-- A barline spans the stave, its short strokes all but the outer courses. The final
barline stands at the right end of the stave, whatever its slot. -/
def Barline.setOn (g : Grid α) (b : Barline α) : Barline α :=
  { b with
    x := match b.kind with
      | .final => g.slotX g.slots
      | _ => g.slotX b.slot
    y := g.y
    height := g.height
    shortY := g.y + g.courseSpacing
    shortHeight := Scalar.count (g.courses - 3) * g.courseSpacing }

/-- A barberpole covers its courses from the lower to the upper, in whichever order they
are given. -/
def Barberpole.setOn (g : Grid α) (b : Barberpole α) : Barberpole α :=
  let (first, last) := b.range.getD (1, g.courses)
  { b with
    lower := Scalar.lesser (g.courseOffset first) (g.courseOffset last)
    upper := Scalar.greater (g.courseOffset first) (g.courseOffset last)
    x := g.slotX b.slot
    y := g.y
    staveHeight := g.height
    courseSpacing := g.courseSpacing }

/-- A fraction stands on the bottom line and on the middle of the stave; any other time
signature stands around the middle. -/
def TimeSignature.setOn (g : Grid α) (t : TimeSignature α) : TimeSignature α :=
  let size := g.height / 2.0
  match t.meter with
  | .fraction .. =>
    { t with
      size
      x := g.slotX t.slot
      y := g.y + size / 5.0
      topY := g.y + g.height / 2.0 + size / 5.0 }
  | _ =>
    { t with
      size
      x := g.slotX t.slot
      y := g.y + g.height / 2.0 - size / 3.0
      topY := g.y + g.height / 2.0 - size / 3.0 }

/-- A semicircle stands off its course by four fifths of the spacing. -/
def Semicircle.setOn (g : Grid α) (s : Semicircle α) : Semicircle α :=
  { s with
    x := g.slotX s.slot + s.radius / 2.0
    y := match s.side with
      | .over => g.courseY s.course + g.courseSpacing * 0.8 - s.radius
      | .under => g.courseY s.course - (g.courseSpacing * 0.8 - s.radius) }

/-- A slur bows away from the player's side: above its higher end on an italian stave, and
on a french one below its lower end, from anchors that lie under the frets. -/
def Slur.setOn (g : Grid α) (s : Slur α) : Slur α :=
  let x₁ := g.slotX s.start.slot
  let x₃ := g.slotX s.stop.slot
  let y₁ := g.courseY s.start.course + g.courseSpacing * 0.75
  let y₃ := g.courseY s.stop.course + g.courseSpacing * 0.75
  let x₂ := (x₁ + x₃) / 2.0
  match g.orientation with
  | .italian => { s with x₁, y₁, x₂, y₂ := Scalar.greater y₁ y₃ + 2.0 * g.courseSpacing, x₃, y₃ }
  | .french =>
    let y₁ := y₁ - 1.5 * g.courseSpacing
    let y₃ := y₃ - 1.5 * g.courseSpacing
    { s with x₁, y₁, x₂, y₂ := Scalar.lesser y₁ y₃ - 2.0 * g.courseSpacing, x₃, y₃ }

/-- A section sign stands half a stave above the stave. -/
def SectionSign.setOn (g : Grid α) (s : SectionSign α) : SectionSign α :=
  { s with x := g.slotX s.slot, y := g.y + g.height * 1.5 }

/-- A chord letter stands around the middle of the stave. -/
def Alfabeto.setOn (g : Grid α) (a : Alfabeto α) : Alfabeto α :=
  { a with x := g.slotX a.slot, y := g.y + g.height / 2.0 - a.size / 3.0 }

def Strum.setOn (g : Grid α) (s : Strum α) : Strum α :=
  { s with x := g.slotX s.slot, y := g.y }

namespace Glyph

/-- The glyph put on a grid, with the style it has. -/
def setOn (g : Grid α) : Glyph α → Glyph α
  | note n => note (n.setOn g)
  | tick t => tick (t.setOn g)
  | barline b => barline (b.setOn g)
  | barberpole b => barberpole (b.setOn g)
  | timeSignature t => timeSignature (t.setOn g)
  | semicircle s => semicircle (s.setOn g)
  | slur s => slur (s.setOn g)
  | sectionSign s => sectionSign (s.setOn g)
  | alfabeto a => alfabeto (a.setOn g)
  | strum s => strum (s.setOn g)

/-- The glyph moved to the right by `padding` for each slot before it. The final barline
stays at the end of the stave; each end of a slur moves by its own slot. -/
def pad (padding : α) : Glyph α → Glyph α
  | note n => note { n with x := n.x + Scalar.count n.slot * padding }
  | tick t => tick { t with x := t.x + Scalar.count t.slot * padding }
  | barline b =>
    match b.kind with
    | .final => barline b
    | _ => barline { b with x := b.x + Scalar.count b.slot * padding }
  | barberpole b => barberpole { b with x := b.x + Scalar.count b.slot * padding }
  | timeSignature t => timeSignature { t with x := t.x + Scalar.count t.slot * padding }
  | semicircle s => semicircle { s with x := s.x + Scalar.count s.slot * padding }
  | slur s =>
    let x₁ := s.x₁ + Scalar.count s.start.slot * padding
    let x₃ := s.x₃ + Scalar.count s.stop.slot * padding
    slur { s with x₁, x₂ := (x₁ + x₃) / 2.0, x₃ }
  | sectionSign s => sectionSign { s with x := s.x + Scalar.count s.slot * padding }
  | alfabeto a => alfabeto { a with x := a.x + Scalar.count a.slot * padding }
  | strum s => strum { s with x := s.x + Scalar.count s.slot * padding }

end Glyph

/-- The mark as a glyph on a grid, in the style of the layout. -/
def Mark.place (g : Grid α) (l : Layout α) (m : Mark) : Glyph α := (m.styled l).setOn g

theorem mark_styled (l : Layout α) (m : Mark) : (m.styled l).mark = m := by
  cases m <;> rfl

theorem mark_setOn (g : Grid α) (x : Glyph α) : (x.setOn g).mark = x.mark := by
  cases x with
  | timeSignature t => obtain ⟨_, m, _⟩ := t; cases m <;> rfl
  | slur s => simp only [Glyph.setOn, Slur.setOn]; split <;> rfl
  | _ => rfl

/-- Placing a mark keeps its musical content. -/
@[simp]
theorem mark_place (g : Grid α) (l : Layout α) (m : Mark) : (m.place g l).mark = m :=
  (mark_setOn g _).trans (mark_styled l m)

/-- Padding keeps the musical content of a glyph. -/
@[simp]
theorem mark_pad (p : α) (x : Glyph α) : (x.pad p).mark = x.mark := by
  cases x with
  | barline b => obtain ⟨k, _⟩ := b; cases k <;> rfl
  | _ => rfl

end Tablature
