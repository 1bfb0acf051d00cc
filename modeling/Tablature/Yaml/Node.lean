import Tablature.Number.Decimal
import Tablature.Yaml.Text

/-!
# YAML nodes

Data as a tree, and the tree as YAML in block style. Records are indented by two;
lists stand at the indentation of their key. The lines of a node are those of its
parts, indented, so the printed form of a part does not depend on what is around it.

- `Node.print`: a tree as a document.
- `Serializer`, `printer`: what makes a text of a tree, and the one that prints it.
-/

namespace Tablature.Yaml

/-- A tree of data. -/
inductive Node where
  | null
  | bool (b : Bool)
  | count (n : Nat)
  | number (v : Float)
  | text (s : String)
  | list (items : List Node)
  /-- Named values, in order. -/
  | record (fields : List (String × Node))
  /-- A value of which the tag says what it is. -/
  | tagged (tag : String) (value : Node)

namespace Node

/-- How a node stands after its key or its dash. -/
inductive Shape where
  /-- On the line of the key. -/
  | inline (shown : String)
  /-- On lines of its own; a record is indented below its key, a list is not. -/
  | block (head : String) (indented : Bool) (lines : List String)

/-- A line moved to the right. -/
def indentLine (line : String) : String := "  " ++ line

/-- The line of a key, and the lines of its value. -/
def fieldLines (key : String) : Shape → List String
  | .inline shown => [key ++ ": " ++ shown]
  | .block head indented lines =>
    (key ++ ":" ++ head) :: if indented then lines.map indentLine else lines

/-- The lines of an item, the first of them after a dash. -/
def itemLines : Shape → List String
  | .inline shown => ["- " ++ shown]
  | .block head _ lines =>
    match head, lines with
    | "", first :: rest => ("- " ++ first) :: rest.map indentLine
    | _, lines => ("-" ++ head) :: lines.map indentLine

/-- A shape with a tag in front. -/
def withTag (tag : String) : Shape → Shape
  | .inline shown => .inline (tag ++ " " ++ shown)
  | .block head indented lines => .block (" " ++ tag ++ head) indented lines

mutual

/-- How a node stands after a key or a dash at an indentation. A list within a list is
indented. A text that goes on after a line break does so to the right of its key. -/
def shape (inList : Bool) (indent : Nat) : Node → Shape
  | null => .inline "null"
  | bool b => .inline (if b then "true" else "false")
  | count n => .inline (toString n)
  | number v => .inline (NumberFormat.scientific.write v)
  | text s => .inline (quote (indent + 2) s)
  | list [] => .inline "[]"
  | list (item :: items) =>
    let inner := if inList then indent + 2 else indent
    .block "" false (itemLines (item.shape true inner) ++ listLines inner items)
  | record [] => .inline "\x7b\x7d"
  | record ((key, value) :: fields) =>
    let inner := indent + 2
    .block "" true (fieldLines key (value.shape false inner) ++ recordLines inner fields)
  | tagged tag value => withTag tag (value.shape inList indent)

/-- The lines of the items of a list. -/
def listLines (indent : Nat) : List Node → List String
  | [] => []
  | item :: items => itemLines (item.shape true indent) ++ listLines indent items

/-- The lines of the fields of a record at an indentation. -/
def recordLines (indent : Nat) : List (String × Node) → List String
  | [] => []
  | (key, value) :: fields =>
    fieldLines key (value.shape false indent) ++ recordLines indent fields

end

/-- A tree as a document. -/
def print : Node → String
  | record (field :: fields) => String.join ((recordLines 0 (field :: fields)).map (· ++ "\n"))
  | node =>
    match node.shape false 0 with
    | .inline shown => shown ++ "\n"
    | .block _ _ lines => String.join (lines.map (· ++ "\n"))

end Node

/-- What makes a text of a tree, or says why it cannot. -/
abbrev Serializer := Node → Except String String

/-- Prints every tree. -/
def printer : Serializer := fun node => .ok node.print

end Tablature.Yaml
