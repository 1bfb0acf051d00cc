import Tablature.Number.Scalar
import Tablature.Orientation
import Tablature.Setting
import Tablature.Layout.FretMap

/-!
# Layout

The measures and styles in force at a point of a source. Pages, staves and glyphs
take what they need from the layout when they are made, so a later directive never
changes them.

- `Layout.initial`: the layout before the first directive.
- `Layout.setLength`, `Layout.setCount`, `Layout.setFace`: what each setting changes.
-/

namespace Tablature

/-- A font and its size. -/
structure TextStyle (α : Type) where
  face : String
  size : α
  deriving DecidableEq, Repr

/-- The measures and styles that directives set. -/
structure Layout (α : Type) where
  pageWidth : α
  pageHeight : α
  topMargin : α
  bottomMargin : α
  leftMargin : α
  rightMargin : α
  staveSeparation : α
  slots : Nat
  numberOfCourses : Nat
  courseSpacing : α
  /-- The pitches of each course, course one first. A course has one or two strings. -/
  courses : List (List String)
  courseStyle : TextStyle α
  showCourses : Bool
  justified : Bool
  barlineSpacing : α
  barberpoleSpacing : α
  barlineStyle : TextStyle α
  tickRadius : α
  titleStyle : TextStyle α
  titleHeight : Option α
  composerStyle : TextStyle α
  composerHeight : Option α
  fretStyle : TextStyle α
  sectionSize : α
  alfabetoFace : String
  alfabetoSize : Option α
  fretMap : FretMap
  mapFrets : Bool
  orientation : Orientation
  deriving DecidableEq, Repr

namespace Layout

variable {α : Type} [Scalar α]

/-- A five-course guitar on an upright page, ten written as a cross. -/
def initial : Layout α where
  pageWidth := 595.0
  pageHeight := 842.0
  topMargin := 200.0
  bottomMargin := 72.0
  leftMargin := 72.0
  rightMargin := 72.0
  staveSeparation := 48.0
  slots := 30
  numberOfCourses := 5
  courseSpacing := 10.0
  courses := [["E4"], ["B3", "B3"], ["G3", "G3"], ["D4", "D4"], ["A4", "A4"]]
  courseStyle := ⟨"ArialMT", 8.0⟩
  showCourses := false
  justified := false
  barlineSpacing := 4.0
  barberpoleSpacing := 8.0
  barlineStyle := ⟨"ArialMT", 8.0⟩
  tickRadius := 2.5
  titleStyle := ⟨"Zapfino", 24.0⟩
  titleHeight := none
  composerStyle := ⟨"Times-Roman", 12.0⟩
  composerHeight := none
  fretStyle := ⟨"ArialMT", 10.0⟩
  sectionSize := 18.0
  alfabetoFace := "Times-Roman"
  alfabetoSize := none
  fretMap := .ofList [("10", "X")]
  mapFrets := true
  orientation := .italian

/-- The room between the left and the right margin. -/
def staveLength (l : Layout α) : α := l.pageWidth - l.leftMargin - l.rightMargin

/-- The height of the title's baseline: near the top of the page if it is not set. -/
def titleLine (l : Layout α) : α := l.titleHeight.getD (l.pageHeight - 100.0)

/-- The height of the composer's baseline: below the title if it is not set. -/
def composerLine (l : Layout α) : α := l.composerHeight.getD (l.titleLine - 20.0)

/-- The size of chord letters: most of a stave's height if it is not set. -/
def chordSize (l : Layout α) : α :=
  l.alfabetoSize.getD (0.8 * l.courseSpacing * Scalar.count l.numberOfCourses)

/-- The radius of the semicircles beside fret signs. -/
def semicircleRadius (l : Layout α) : α := l.fretStyle.size / 2.0

/-- A fret as it is printed. -/
def fretText (l : Layout α) (fret : String) : String :=
  if l.mapFrets then l.fretMap.remap fret else fret

/-- Sets a length. -/
def setLength (l : Layout α) (v : α) : LengthSetting → Layout α
  | .pageWidth => { l with pageWidth := v }
  | .pageHeight => { l with pageHeight := v }
  | .topMargin => { l with topMargin := v }
  | .bottomMargin => { l with bottomMargin := v }
  | .leftMargin => { l with leftMargin := v }
  | .rightMargin => { l with rightMargin := v }
  | .staveSeparation => { l with staveSeparation := v }
  | .courseSpacing => { l with courseSpacing := v }
  | .barlineSpacing => { l with barlineSpacing := v }
  | .barberpoleSpacing => { l with barberpoleSpacing := v }
  | .titleSize => { l with titleStyle.size := v }
  | .titleHeight => { l with titleHeight := some v }
  | .composerSize => { l with composerStyle.size := v }
  | .composerHeight => { l with composerHeight := some v }
  | .fretSize => { l with fretStyle.size := v }
  | .courseSize => { l with courseStyle.size := v }
  | .barlineSize => { l with barlineStyle.size := v }

/-- Sets a count. -/
def setCount (l : Layout α) (n : Nat) : CountSetting → Layout α
  | .slots => { l with slots := n }
  | .numberOfCourses => { l with numberOfCourses := n }

/-- Sets a font. -/
def setFace (l : Layout α) (face : String) : FaceSetting → Layout α
  | .title => { l with titleStyle.face := face }
  | .composer => { l with composerStyle.face := face }
  | .fret => { l with fretStyle.face := face }
  | .course => { l with courseStyle.face := face }
  | .barline => { l with barlineStyle.face := face }

/-- Turns a switch on. -/
def setFlag (l : Layout α) : Flag → Layout α
  | .showCourses => { l with showCourses := true }
  | .justified => { l with justified := true }
  | .fretMappingOff => { l with mapFrets := false }
  | .french => { l with orientation := .french }

end Layout

end Tablature
