import Tablature.Document
import Tablature.Yaml.Node

/-!
# Documents as data

The tree of a document with all its coordinates, for programs that read the glyphs
rather than the drawing.

- `Document.outline`: the tree of a document.
- `Document.yaml`: its text, as a serializer writes it.
-/

namespace Tablature

open Yaml (Node)

def Orientation.outline : Orientation → Node
  | italian => .text "Italian"
  | french => .text "French"

def Duration.outline : Duration → Node
  | breve => .text "Breve"
  | minim => .text "Minim"
  | crotchet => .text "Crotchet"
  | quaver => .text "Quaver"
  | semiquaver => .text "Semiquaver"

def BarlineKind.outline : BarlineKind → Node
  | single => .text "single"
  | double => .text "double"
  | short => .text "short"
  | longShort => .text "long_short"
  | triple => .text "triple"
  | final => .text "end"

/-- Meters with figures are tagged, the others are words. -/
def Meter.outline : Meter → Node
  | single figure => .tagged "!single" (.text figure)
  | fraction top bottom => .tagged "!double" (.list [.text top, .text bottom])
  | common => .text "common"
  | cut => .text "split_common"

def Anchor.outline (a : Anchor) : Node :=
  .record [("slot", .count a.slot), ("course", .count a.course)]

/-- A value that may be missing. -/
def optional {β : Type} (f : β → Node) : Option β → Node
  | none => .null
  | some b => f b

/-- The tree of a glyph: its kind, its musical content, its place and its style. -/
def Glyph.outline : Glyph Float → Node
  | note n =>
    .record
      [("glyph", .text "note"), ("slot", .count n.slot), ("course", .count n.course),
        ("fret", .text n.fret), ("text", .text n.text), ("x", .number n.x), ("y", .number n.y),
        ("size", .number n.size), ("face", .text n.face)]
  | tick t =>
    .record
      [("glyph", .text "tick"), ("slot", .count t.slot), ("duration", t.rhythm.duration.outline),
        ("dotted", .bool t.rhythm.dotted), ("x", .number t.x), ("y", .number t.y),
        ("body_radius", .number t.bodyRadius)]
  | barline b =>
    .record
      [("glyph", .text "barline"), ("kind", b.kind.outline), ("slot", .count b.slot),
        ("label", optional .text b.label), ("x", .number b.x), ("y", .number b.y),
        ("height", .number b.height), ("short_y", .number b.shortY),
        ("short_height", .number b.shortHeight), ("spacing", .number b.spacing),
        ("label_size", .number b.labelSize), ("label_face", .text b.labelFace)]
  | barberpole b =>
    .record
      [("glyph", .text "barberpole"), ("slot", .count b.slot),
        ("range", optional (fun (first, last) => .list [.count first, .count last]) b.range),
        ("x", .number b.x), ("y", .number b.y), ("width", .number b.width),
        ("stave_height", .number b.staveHeight), ("course_spacing", .number b.courseSpacing),
        ("lower", .number b.lower), ("upper", .number b.upper)]
  | timeSignature t =>
    .record
      [("glyph", .text "time_signature"), ("slot", .count t.slot), ("meter", t.meter.outline),
        ("x", .number t.x), ("y", .number t.y), ("top_y", .number t.topY),
        ("size", .number t.size)]
  | semicircle s =>
    let kind := match s.side with
      | .over => "over_semicircle"
      | .under => "under_semicircle"
    .record
      [("glyph", .text kind), ("slot", .count s.slot), ("course", .count s.course),
        ("x", .number s.x), ("y", .number s.y), ("radius", .number s.radius)]
  | slur s =>
    .record
      [("glyph", .text "slur"), ("start", s.start.outline), ("end", s.stop.outline),
        ("x1", .number s.x₁), ("y1", .number s.y₁), ("x2", .number s.x₂), ("y2", .number s.y₂),
        ("x3", .number s.x₃), ("y3", .number s.y₃)]
  | sectionSign s =>
    .record
      [("glyph", .text "section"), ("slot", .count s.slot), ("x", .number s.x),
        ("y", .number s.y), ("size", .number s.size)]
  | alfabeto a =>
    .record
      [("glyph", .text "alfabeto"), ("slot", .count a.slot), ("chord", .text a.chord),
        ("x", .number a.x), ("y", .number a.y), ("size", .number a.size),
        ("face", .text a.face)]
  | strum s =>
    .record
      [("glyph", .text "strum"), ("slot", .count s.slot), ("pattern", .text s.pattern),
        ("x", .number s.x), ("y", .number s.y), ("stroke_spacing", .number s.strokeSpacing)]

def CourseLabels.outline (l : CourseLabels Float) : Node :=
  .record
    [("courses", .list (l.courses.map fun strings => .list (strings.map .text))),
      ("face", .text l.style.face), ("size", .number l.style.size)]

/-- The tree of a stave. A slur that is still open is not part of it. -/
def Stave.outline (s : Stave Float) : Node :=
  .record
    [("x", .number s.x), ("y", .number s.y), ("length", .number s.length),
      ("slots", .count s.slots), ("courses", .count s.courses),
      ("course_spacing", .number s.courseSpacing), ("orientation", s.orientation.outline),
      ("first", .bool s.first), ("labels", optional CourseLabels.outline s.labels),
      ("cursor", .count s.cursor), ("glyphs", .list (s.glyphs.map Glyph.outline)),
      ("padding", optional .number s.padding)]

def Heading.outline (h : Heading Float) : Node :=
  .record
    [("text", .text h.text), ("face", .text h.style.face), ("size", .number h.style.size),
      ("y", .number h.y)]

def Page.outline (p : Page Float) : Node :=
  .record
    [("number", .count p.number), ("first", .bool p.first), ("width", .number p.width),
      ("height", .number p.height), ("top_margin", .number p.topMargin),
      ("left_margin", .number p.leftMargin), ("right_margin", .number p.rightMargin),
      ("stave_separation", .number p.staveSeparation),
      ("title", optional Heading.outline p.title),
      ("composer", optional Heading.outline p.composer),
      ("staves", .list (p.staves.map Stave.outline))]

namespace Document

/-- The tree of a document. -/
def outline (d : Document Float) : Node := .record [("pages", .list (d.pages.map Page.outline))]

/-- The document as a serializer writes it, or why it cannot. -/
def yaml (serialize : Yaml.Serializer) (d : Document Float) : Except String String :=
  serialize d.outline

end Document

end Tablature
