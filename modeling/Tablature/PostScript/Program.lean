import Tablature.Drawing
import Tablature.Number.Decimal
import Tablature.PostScript.Literal

/-!
# PostScript programs

A drawing as a PostScript program: a copy with Latin-1 encoding of every font that the
drawing uses, then one line for each command. A line is a row of tokens with a blank
between them.

- `Command.tokens`: the tokens of a command.
- `program`: the program of a drawing.
-/

namespace Tablature.PostScript

/-- A token of a command line. -/
inductive Token where
  /-- An operator. -/
  | operator (name : String)
  /-- A name that is not executed. -/
  | name (name : String)
  /-- A number, written to three places. -/
  | number (v : Float)
  /-- A string, which is escaped when it is written. -/
  | string (text : String)

def Token.text : Token → String
  | operator n => n
  | name n => "/" ++ n
  | number v => thousandths v
  | string text => "(" ++ String.ofList (escape text.toList) ++ ")"

/-! ## Fonts -/

/-- What the name of a copy with Latin-1 encoding ends in. -/
def latinSuffix : String := "-ISOLatin1"

/-- The font that a face names, whether it names the font or its copy. -/
def baseFace (face : String) : String :=
  match latinSuffix.toList.isSuffixOf? face.toList with
  | some base => String.ofList base
  | none => face

/-- The name of the copy of a font. -/
def latinFace (face : String) : String := baseFace face ++ latinSuffix

/-- The font that every program defines. -/
def defaultFace : String := "Times-Roman"

/-- Puts a face into a list in strictly increasing order. -/
def insertFace (face : String) : List String → List String
  | [] => [face]
  | f :: fs =>
    if face < f then face :: f :: fs
    else if face = f then f :: fs
    else f :: insertFace face fs

/-- The font a command uses. -/
def faceOf? {α : Type} : Command α → Option String
  | .text _ _ _ _ face _ => some (baseFace face)
  | _ => none

/-- The fonts of a drawing, each once and in order. -/
def faces {α : Type} (commands : List (Command α)) : List String :=
  (commands.filterMap faceOf?).foldl (fun fs f => insertFace f fs) [defaultFace]

/-- Defines the copy of a font. -/
def defineFace (face : String) : String :=
  "/" ++ face ++ " findfont dup length dict begin " ++
    "\x7b 1 index /FID ne \x7bdef\x7d \x7bpop pop\x7d ifelse \x7d forall\n" ++
    "/Encoding ISOLatin1Encoding def currentdict end\n" ++
    "/" ++ face ++ latinSuffix ++ " exch definefont pop\n"

/-! ## Commands -/

/-- Draws the path with a line of a width. -/
def stroke (width : Float) : List Token :=
  [.number width, .operator "setlinewidth", .operator "stroke"]

def selectFont (face : String) (size : Float) : List Token :=
  [.name (latinFace face), .operator "findfont", .number size, .operator "scalefont",
    .operator "setfont"]

/-- Draws a text from, around or up to a point. -/
def showText (text : String) (x y : Float) : Align → List Token
  | .left =>
    [.operator "newpath", .number x, .number y, .operator "moveto", .string text,
      .operator "show"]
  | .centre =>
    [.number x, .number y, .operator "moveto", .string text, .operator "dup",
      .operator "stringwidth", .operator "pop", .number 2.0, .operator "div", .operator "neg",
      .number 0.0, .operator "rmoveto", .operator "show"]
  | .right =>
    [.number x, .string text, .operator "stringwidth", .operator "pop", .operator "sub",
      .number y, .operator "moveto", .string text, .operator "show"]

/-- The tokens of a command. -/
def tokens : Command Float → List Token
  | .line x₁ y₁ x₂ y₂ width =>
    [.operator "newpath", .number x₁, .number y₁, .operator "moveto", .number x₂, .number y₂,
      .operator "lineto"] ++ stroke width
  | .arc x y radius start stop clockwise filled width =>
    [.operator "newpath", .number x, .number y, .number radius, .number start, .number stop,
      .operator (if clockwise then "arcn" else "arc")] ++
      if filled then [.operator "fill"] else stroke width
  | .curve x₁ y₁ x₂ y₂ x₃ y₃ width =>
    [.operator "newpath", .number x₁, .number y₁, .operator "moveto", .number x₁, .number y₁,
      .number x₂, .number y₂, .number x₃, .number y₃, .operator "curveto"] ++ stroke width
  | .text text x y size face align => selectFont face size ++ showText text x y align
  | .colour red green blue =>
    [.number red, .number green, .number blue, .operator "setrgbcolor"]
  | .pageBreak => [.operator "showpage"]

/-- The line of a command. -/
def commandLine (c : Command Float) : String :=
  String.intercalate " " ((tokens c).map Token.text) ++ "\n"

/-- The program of a drawing. -/
def program (commands : List (Command Float)) : String :=
  "%!PS-Adobe-3.0\n" ++ String.join ((faces commands).map defineFace) ++
    String.join (commands.map commandLine) ++ "showpage\n"

end Tablature.PostScript
