/-!
# Settings

The directives that change one value of the layout, by the kind of value they
take, and the switches, which can only be turned on.

- `Setting.keyword`: how a setting is written in a source.
- `Setting.mem_all`: the list `Setting.all` leaves none out.
-/

namespace Tablature

/-- The settings that take a length. -/
inductive LengthSetting where
  | pageWidth
  | pageHeight
  | topMargin
  | bottomMargin
  | leftMargin
  | rightMargin
  | staveSeparation
  | courseSpacing
  | barlineSpacing
  | barberpoleSpacing
  | titleSize
  | titleHeight
  | composerSize
  | composerHeight
  | fretSize
  | courseSize
  | barlineSize
  deriving DecidableEq, Repr

/-- The settings that take a count. -/
inductive CountSetting where
  | slots
  | numberOfCourses
  deriving DecidableEq, Repr

/-- The settings that take the name of a font. -/
inductive FaceSetting where
  | title
  | composer
  | fret
  | course
  | barline
  deriving DecidableEq, Repr

/-- A directive that takes one value. -/
inductive Setting where
  | length (s : LengthSetting)
  | count (s : CountSetting)
  | face (s : FaceSetting)
  deriving DecidableEq, Repr

def LengthSetting.keyword : LengthSetting → String
  | pageWidth => "PAGEWIDTH"
  | pageHeight => "PAGEHEIGHT"
  | topMargin => "TOPMARGIN"
  | bottomMargin => "BOTTOMMARGIN"
  | leftMargin => "LEFTMARGIN"
  | rightMargin => "RIGHTMARGIN"
  | staveSeparation => "STAVESEPARATION"
  | courseSpacing => "COURSESPACING"
  | barlineSpacing => "BARLINESPACING"
  | barberpoleSpacing => "BARBERPOLESPACING"
  | titleSize => "TITLESIZE"
  | titleHeight => "TITLEYPOSITION"
  | composerSize => "COMPOSERSIZE"
  | composerHeight => "COMPOSERYPOSITION"
  | fretSize => "FRETSIZE"
  | courseSize => "COURSESIZE"
  | barlineSize => "BARLINESIZE"

def CountSetting.keyword : CountSetting → String
  | slots => "SLOTS"
  | numberOfCourses => "NUMBEROFCOURSES"

def FaceSetting.keyword : FaceSetting → String
  | title => "TITLEFACE"
  | composer => "COMPOSERFACE"
  | fret => "FRETFACE"
  | course => "COURSEFACE"
  | barline => "BARLINEFACE"

namespace Setting

/-- The word a setting line starts with. -/
def keyword : Setting → String
  | length s => s.keyword
  | count s => s.keyword
  | face s => s.keyword

/-- Every setting. -/
def all : List Setting :=
  [.length .pageWidth, .length .pageHeight, .length .topMargin, .length .bottomMargin,
    .length .leftMargin, .length .rightMargin, .length .staveSeparation, .count .slots,
    .count .numberOfCourses, .length .courseSpacing, .length .barlineSpacing,
    .length .barberpoleSpacing, .length .titleSize, .length .titleHeight, .length .composerSize,
    .length .composerHeight, .length .fretSize, .length .courseSize, .length .barlineSize,
    .face .title, .face .composer, .face .fret, .face .course, .face .barline]

theorem mem_all (s : Setting) : s ∈ all := by
  rcases s with s | s | s <;> cases s <;> decide

end Setting

/-- A switch. -/
inductive Flag where
  /-- Print the tuning beside the first stave. -/
  | showCourses
  /-- Spread nearly full staves to the right edge. -/
  | justified
  /-- Print frets as they are written. -/
  | fretMappingOff
  /-- Draw course one on the top line. -/
  | french
  deriving DecidableEq, Repr

end Tablature
