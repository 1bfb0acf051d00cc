import Tablature.PostScript.Program
import Tablature.Proofs.PostScript.Scan
import Tablature.Proofs.Thousandths

/-!
# Carrying out PostScript

What the operators that a drawing uses do, on a machine that keeps what it has drawn
as commands. Numbers are counted in thousandths. How wide a text is, the machine
does not know: where something depends on it, it counts halves of that width, and so
it sees at the end where a text stands to its point.

* `Operator`: the operators, and how they are spelled;
* `Lexeme.item`: what a lexeme asks for;
* `Machine.exec`: one item carried out;
* `drawing?`: what a program draws.
-/

namespace Tablature.PostScript

/-! ## Operators -/

/-- The operators that change nothing but the stack. -/
inductive StackOperator where
  | dup
  | pop
  | exch
  | div
  | neg
  | sub
  | stringWidth
  | findFont
  | scaleFont
  | defineFont
  | length
  | dict
  | beginDict
  | endDict
  | currentDict
  | define
  | forAll
  | latinEncoding
  deriving DecidableEq, Repr

/-- The operators that draw, or prepare to. -/
inductive PaintOperator where
  | newPath
  | moveTo
  | moveBy
  | lineTo
  | curveTo
  | arc (clockwise : Bool)
  | setLineWidth
  | stroke
  | fill
  | setFont
  | showText
  | setColour
  | showPage
  deriving DecidableEq, Repr

inductive Operator where
  | stack (o : StackOperator)
  | paint (o : PaintOperator)
  deriving DecidableEq, Repr

def StackOperator.word : StackOperator → String
  | dup => "dup"
  | pop => "pop"
  | exch => "exch"
  | div => "div"
  | neg => "neg"
  | sub => "sub"
  | stringWidth => "stringwidth"
  | findFont => "findfont"
  | scaleFont => "scalefont"
  | defineFont => "definefont"
  | length => "length"
  | dict => "dict"
  | beginDict => "begin"
  | endDict => "end"
  | currentDict => "currentdict"
  | define => "def"
  | forAll => "forall"
  | latinEncoding => "ISOLatin1Encoding"

def PaintOperator.word : PaintOperator → String
  | newPath => "newpath"
  | moveTo => "moveto"
  | moveBy => "rmoveto"
  | lineTo => "lineto"
  | curveTo => "curveto"
  | arc clockwise => if clockwise then "arcn" else "arc"
  | setLineWidth => "setlinewidth"
  | stroke => "stroke"
  | fill => "fill"
  | setFont => "setfont"
  | showText => "show"
  | setColour => "setrgbcolor"
  | showPage => "showpage"

namespace Operator

def word : Operator → String
  | stack o => o.word
  | paint o => o.word

def all : List Operator :=
  [.dup, .pop, .exch, .div, .neg, .sub, .stringWidth, .findFont, .scaleFont, .defineFont, .length,
    .dict, .beginDict, .endDict, .currentDict, .define, .forAll, .latinEncoding].map stack ++
  [.newPath, .moveTo, .moveBy, .lineTo, .curveTo, .arc false, .arc true, .setLineWidth, .stroke,
    .fill, .setFont, .showText, .setColour, .showPage].map paint

theorem mem_all (o : Operator) : o ∈ all := by
  cases o with
  | stack o => exact List.mem_append_left _ (List.mem_map_of_mem (by cases o <;> decide))
  | paint o =>
    refine List.mem_append_right _ (List.mem_map_of_mem ?_)
    cases o with
    | arc clockwise => cases clockwise <;> decide
    | _ => decide

def ofWord? (cs : List Char) : Option Operator := all.find? fun o => o.word.toList = cs

end Operator

/-! ## Items -/

/-- What a lexeme asks for. -/
inductive Item where
  | number (thousandths : Int)
  | name (cs : List Char)
  | string (body : List Char)
  | operator (o : Operator)
  | openProcedure
  | closeProcedure
  /-- A word that the machine does not know. -/
  | unknown
  deriving DecidableEq, Repr

def Lexeme.item : Lexeme → Item
  | word cs =>
    match readThousandths? cs, Operator.ofWord? cs with
    | some k, _ => .number k
    | none, some o => .operator o
    | none, none => .unknown
  | name cs => .name cs
  | string body => .string body
  | bracket '\x7b' => .openProcedure
  | bracket '\x7d' => .closeProcedure
  | bracket _ => .unknown

/-! ## The machine -/

inductive Operand where
  | number (thousandths : Int)
  /-- So many halves of the width of a text to the right of `x`. -/
  | abscissa (x halves : Int) (text : List Char)
  | name (cs : List Char)
  | string (body : List Char)
  | font (name : List Char)
  | scaledFont (name : List Char) (size : Int)
  /-- A dictionary, a procedure, or the length of something. -/
  | other
  deriving DecidableEq, Repr

/-- The point `(x, y)`, moved to the right by so many halves of the width of a text. -/
structure Point where
  x : Int
  y : Int
  halves : Int
  text : List Char
  deriving DecidableEq, Repr

/-- How a text stands to a point, where the point is moved to the left by as much of its width. -/
def Point.align? (p : Point) (text : List Char) : Option Align :=
  if p.halves = 0 then some .left
  else if p.text = text ∧ p.halves = -1 then some .centre
  else if p.text = text ∧ p.halves = -2 then some .right
  else none

/-- A part of a path. -/
inductive Segment where
  | line (x₁ y₁ x₂ y₂ : Int)
  | arc (x y radius start stop : Int) (clockwise : Bool)
  /-- A curve that begins towards no other point than its first. -/
  | curve (x₁ y₁ x₂ y₂ x₃ y₃ : Int)
  deriving DecidableEq, Repr

namespace Segment

/-- Drawn with a line of a width. -/
def stroked (width : Int) : Segment → Command Int
  | line x₁ y₁ x₂ y₂ => .line x₁ y₁ x₂ y₂ width
  | arc x y radius start stop clockwise => .arc x y radius start stop clockwise false width
  | curve x₁ y₁ x₂ y₂ x₃ y₃ => .curve x₁ y₁ x₂ y₂ x₃ y₃ width

/-- Drawn as a surface, which has no width. -/
def filled? : Segment → Option (Command Int)
  | arc x y radius start stop clockwise => some (.arc x y radius start stop clockwise true 0)
  | _ => none

end Segment

structure Machine where
  stack : List Operand
  /-- How many procedures are open. -/
  depth : Nat
  point : Option Point
  path : List Segment
  /-- The face of the font in use, and its size. -/
  font : Option (String × Int)
  lineWidth : Int
  drawn : List (Command Int)
  deriving DecidableEq, Repr

/-- The stack after an operator. -/
def StackOperator.run : StackOperator → List Operand → Option (List Operand)
  | dup, a :: st => some (a :: a :: st)
  | pop, _ :: st => some st
  | exch, b :: a :: st => some (a :: b :: st)
  | div, .number k :: .abscissa x halves text :: st =>
    if k = 2000 ∧ x % 2 = 0 ∧ halves % 2 = 0 then some (.abscissa (x / 2) (halves / 2) text :: st)
    else none
  | neg, .abscissa x halves text :: st => some (.abscissa (-x) (-halves) text :: st)
  | sub, .abscissa x halves text :: .number k :: st =>
    some (.abscissa (k - x) (-halves) text :: st)
  | stringWidth, .string body :: st => some (.other :: .abscissa 0 2 body :: st)
  | findFont, .name cs :: st => some (.font cs :: st)
  | scaleFont, .number k :: .font cs :: st => some (.scaledFont cs k :: st)
  | defineFont, .other :: .name cs :: st => some (.font cs :: st)
  | length, _ :: st => some (.other :: st)
  | dict, _ :: st => some (.other :: st)
  | beginDict, _ :: st => some st
  | endDict, st => some st
  | currentDict, st => some (.other :: st)
  | define, _ :: _ :: st => some st
  | forAll, _ :: _ :: st => some st
  | latinEncoding, st => some (.other :: st)
  | _, _ => none

namespace Machine

def initial : Machine := ⟨[], 0, none, [], none, 1000, []⟩

def push (m : Machine) (a : Operand) : Machine := { m with stack := a :: m.stack }

/-- The point that a line or a curve can begin at. -/
def start? (m : Machine) : Option Point := m.point.filter fun p => p.halves = 0

def paint (m : Machine) : PaintOperator → List Operand → Option Machine
  | .newPath, st => some { m with stack := st, point := none, path := [] }
  | .moveTo, .number y :: .number x :: st =>
    some { m with stack := st, point := some ⟨x, y, 0, []⟩ }
  | .moveTo, .number y :: .abscissa x halves text :: st =>
    some { m with stack := st, point := some ⟨x, y, halves, text⟩ }
  | .moveBy, .number y :: .abscissa x halves text :: st =>
    m.start?.map fun p => { m with stack := st, point := some ⟨p.x + x, p.y + y, halves, text⟩ }
  | .lineTo, .number y :: .number x :: st =>
    m.start?.map fun p =>
      { m with stack := st, point := some ⟨x, y, 0, []⟩, path := m.path ++ [.line p.x p.y x y] }
  | .curveTo, .number y₃ :: .number x₃ :: .number y₂ :: .number x₂ :: .number y₁ :: .number x₁ ::
      st =>
    if m.point = some ⟨x₁, y₁, 0, []⟩ then
      some { m with
        stack := st, point := some ⟨x₃, y₃, 0, []⟩, path := m.path ++ [.curve x₁ y₁ x₂ y₂ x₃ y₃] }
    else none
  | .arc clockwise, .number stop :: .number start :: .number radius :: .number y :: .number x ::
      st =>
    if m.point = none then
      some { m with stack := st, path := m.path ++ [.arc x y radius start stop clockwise] }
    else none
  | .setLineWidth, .number k :: st => some { m with stack := st, lineWidth := k }
  | .stroke, st =>
    some { m with
      stack := st, point := none, path := []
      drawn := m.drawn ++ m.path.map (Segment.stroked m.lineWidth) }
  | .fill, st =>
    (m.path.mapM Segment.filled?).map fun commands =>
      { m with stack := st, point := none, path := [], drawn := m.drawn ++ commands }
  | .setFont, .scaledFont cs k :: st =>
    some { m with stack := st, font := some (baseFace (String.ofList cs), k) }
  | .showText, .string body :: st => do
    let p ← m.point
    let (face, size) ← m.font
    let align ← p.align? body
    return { m with
      stack := st, point := none
      drawn := m.drawn ++ [.text (String.ofList body) p.x p.y size face align] }
  | .setColour, .number blue :: .number green :: .number red :: st =>
    some { m with stack := st, drawn := m.drawn ++ [.colour red green blue] }
  | .showPage, st => some { m with stack := st, drawn := m.drawn ++ [.pageBreak] }
  | _, _ => none

/-- Carries out an item. Inside a procedure nothing is carried out. -/
def exec (m : Machine) (i : Item) : Option Machine :=
  match i, m.depth with
  | .openProcedure, depth => some { m with depth := depth + 1 }
  | .closeProcedure, 0 => none
  | .closeProcedure, 1 => some ({ m with depth := 0 }.push .other)
  | .closeProcedure, depth + 2 => some { m with depth := depth + 1 }
  | _, _ + 1 => some m
  | .number k, 0 => some (m.push (.number k))
  | .name cs, 0 => some (m.push (.name cs))
  | .string body, 0 => some (m.push (.string body))
  | .operator (.stack o), 0 => (o.run m.stack).map fun st => { m with stack := st }
  | .operator (.paint o), 0 => m.paint o m.stack
  | .unknown, 0 => none

/-- Carries out items in their order. -/
def run (m : Machine) (items : List Item) : Option Machine := items.foldlM exec m

end Machine

/-- The items of a text. -/
def items? (cs : List Char) : Option (List Item) := (lexemes? cs).map (List.map Lexeme.item)

/-- What items draw. -/
def drawing? (items : List Item) : Option (List (Command Int)) :=
  (Machine.initial.run items).map Machine.drawn

/-- The drawing of a program, which ends by showing the last page. -/
def decode? (text : String) : Option (List (Command Int)) := do
  let items ← items? text.toList
  if items.getLast? = some (.operator (.paint .showPage)) then drawing? items.dropLast else none

end Tablature.PostScript
