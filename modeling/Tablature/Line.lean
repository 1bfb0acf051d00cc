import Tablature.Text
import Tablature.Number.Numeral
import Tablature.Mark
import Tablature.Setting

/-!
# Source lines

A source is read line by line. The first characters of a line, blanks at its ends
aside, say what kind of line it is; the rest is its argument, which nothing here
looks into. A line of no known kind is ignored.

- `Line.classify`: the kind of a line.
- `Line.tokenize`: the numbered lines of a source.
-/

namespace Tablature

/-- A source line by kind, with its argument. -/
inductive Line where
  | page (number : String)
  | stave
  | timeSignature (figures : String)
  | barline (kind : BarlineKind) (label : String)
  | barberpole (range : String)
  /-- Note tokens, after a rhythm or not. -/
  | notes (rhythm : Option Rhythm) (tokens : String)
  | strum (pattern : String)
  | alfabeto (chord : String)
  | sectionSign
  | title (text : String)
  | composer (text : String)
  /-- An empty line. -/
  | blank
  | setting (setting : Setting) (value : String)
  | courses (list : String)
  | flag (flag : Flag)
  | fretMap (list : String)
  | comment
  | ignored
  deriving DecidableEq, Repr

/-- A line with its number in the source, counted from one. -/
structure NumberedLine where
  number : Nat
  line : Line
  deriving DecidableEq, Repr

namespace Line

/-- What a line has to start with. -/
inductive Pattern where
  /-- These characters, which are not part of the argument. -/
  | keyword (text : String)
  /-- Nothing at all. -/
  | nothing
  /-- An ASCII digit, which is part of the argument. -/
  | digit
  deriving DecidableEq, Repr

/-- The argument of a line that fits the pattern. -/
def Pattern.strip? : Pattern → List Char → Option (List Char)
  | .keyword text, cs => text.toList.isPrefixOf? cs
  | .nothing, cs => if cs.isEmpty then some cs else none
  | .digit, cs => if cs.head?.any Numeral.isDigit then some cs else none

/-- A kind of line: how it starts, and what its argument makes it. -/
structure Rule where
  pattern : Pattern
  line : String → Line

namespace Rule

/-- The line that the rule reads, if its pattern fits. -/
def read? (r : Rule) (cs : List Char) : Option Line :=
  (r.pattern.strip? cs).map fun rest => r.line (String.ofList (Text.trim rest))

/-- Note tokens after the sign of a rhythm. -/
def rhythm (sign : String) (duration : Duration) (dotted : Bool) : Rule :=
  ⟨.keyword (sign ++ " "), .notes (some ⟨duration, dotted⟩)⟩

def barline (sign : String) (kind : BarlineKind) : Rule :=
  ⟨.keyword sign, .barline kind⟩

def flag (word : String) (flag : Flag) : Rule :=
  ⟨.keyword word, fun _ => .flag flag⟩

def setting (s : Setting) : Rule :=
  ⟨.keyword (s.keyword ++ " "), .setting s⟩

/-- The kinds of line that stand on a page or a stave. -/
def content : List Rule :=
  [⟨.keyword "P-", .page⟩,
    ⟨.keyword "S-", fun _ => .stave⟩,
    ⟨.keyword "T-", .timeSignature⟩,
    barline "SB-" .short,
    barline "TB-" .triple,
    barline "DB-" .double,
    barline "LSB-" .longShort,
    barline "B-" .single,
    barline "EB-" .final,
    ⟨.keyword "BP-", .barberpole⟩,
    rhythm "W" .breve false,
    rhythm "M" .minim false,
    rhythm "M." .minim true,
    rhythm "C" .crotchet false,
    rhythm "C." .crotchet true,
    rhythm "Q" .quaver false,
    rhythm "Q." .quaver true,
    rhythm "SQ" .semiquaver false,
    rhythm "SQ." .semiquaver true,
    ⟨.digit, .notes none⟩,
    ⟨.keyword "R-", .strum⟩,
    ⟨.keyword "AB-", .alfabeto⟩,
    ⟨.keyword "SECTION", fun _ => .sectionSign⟩,
    ⟨.keyword "TITLE ", .title⟩,
    ⟨.keyword "COMPOSER ", .composer⟩,
    ⟨.nothing, fun _ => .blank⟩,
    ⟨.keyword ";", fun _ => .comment⟩]

/-- The directives that are not settings. -/
def directives : List Rule :=
  [⟨.keyword "COURSES ", .courses⟩,
    ⟨.keyword "FRETMAP ", .fretMap⟩,
    flag "SHOWCOURSES" .showCourses,
    flag "JUSTIFIED" .justified,
    flag "FRETMAPPINGOFF" .fretMappingOff,
    flag "FRENCH" .french]

/-- Every kind of line. -/
def table : List Rule := content ++ directives ++ Setting.all.map setting

end Rule

/-- The kind of a line by the first of `rules` that fits it, blanks at its ends aside. -/
def classifyWith (rules : List Rule) (text : List Char) : Line :=
  (rules.findSome? fun r => r.read? (Text.trim text)).getD .ignored

/-- The kind of a line. -/
def classify (text : List Char) : Line := classifyWith Rule.table text

/-- The source without the mark of byte order that may stand in front of it. -/
def withoutMark : List Char → List Char
  | '\uFEFF' :: cs => cs
  | cs => cs

/-- The lines of a source, numbered from one. -/
def tokenize (source : String) : List NumberedLine :=
  (Text.lines (withoutMark source.toList)).zipIdx 1 |>.map fun (text, n) => ⟨n, classify text⟩

end Line

end Tablature
