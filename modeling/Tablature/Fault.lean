import Tablature.Refusal

/-!
# Faults

What is wrong with a source, and where; and what stops it from becoming a document,
which is a fault or a sum that is too large.

- `Fault.line?`: the line a fault is found on.
- `Fault.message`: the fault in words.
- `Stop`: what stops a source.
-/

namespace Tablature

/-- What is wrong with a source. -/
inductive Fault (α : Type) where
  | malformedDirective (line : Nat) (directive : String) (refusal : Refusal)
  | malformedNote (line : Nat) (token : String)
  | courseOutOfRange (line course courses : Nat)
  /-- A slur that ends where none has begun. -/
  | unmatchedSlur (line course : Nat)
  /-- Something that stands on a page, before the first page. -/
  | noPage (line : Nat) (directive : String)
  /-- Something that stands on a stave, before the first stave of its page. -/
  | noStave (line : Nat) (directive : String)
  /-- A page whose margins leave no room for a stave. -/
  | degenerateStave (page : Nat) (length : α)
  deriving DecidableEq, Repr

namespace Fault

/-- The line a fault is found on. A page without room is not the fault of a line. -/
def line? {α : Type} : Fault α → Option Nat
  | malformedDirective line _ _ => some line
  | malformedNote line _ => some line
  | courseOutOfRange line _ _ => some line
  | unmatchedSlur line _ => some line
  | noPage line _ => some line
  | noStave line _ => some line
  | degenerateStave _ _ => none

/-- The fault in words. -/
def message : Fault Float → String
  | malformedDirective line directive refusal =>
    "Malformed " ++ directive ++ " directive at line " ++ toString line ++ ": " ++ refusal.message
  | malformedNote line token => "Malformed note '" ++ token ++ "' at line " ++ toString line
  | courseOutOfRange line course courses =>
    "Course " ++ toString course ++ " at line " ++ toString line ++
      " is out of range (stave has " ++ toString courses ++ " courses)"
  | unmatchedSlur line course =>
    "Slur closed on course " ++ toString course ++ " at line " ++ toString line ++
      " without a matching open"
  | noPage line directive =>
    "'" ++ directive ++ "' at line " ++ toString line ++ " needs a page; start one with P-<n>"
  | noStave line directive =>
    "'" ++ directive ++ "' at line " ++ toString line ++ " needs a stave; start one with S-"
  | degenerateStave page length =>
    "Stave on page " ++ toString page ++ " has non-positive length " ++
      NumberFormat.plain.write length ++ "; check the page width and margins"

end Fault

/-- What stops a source from becoming a document. -/
inductive Stop (α : Type) where
  /-- A fault in the source, which is reported. -/
  | fault (f : Fault α)
  /-- A sum that is too large for a count. The run breaks off in its midst. -/
  | overflow
  deriving DecidableEq, Repr

namespace Stop

/-- The line of the fault, if a fault on a line it is. -/
def line? {α : Type} : Stop α → Option Nat
  | fault f => f.line?
  | overflow => none

/-- What has stopped the source, in words. -/
def message : Stop Float → String
  | fault f => f.message
  | overflow => "attempt to add with overflow"

end Stop

end Tablature
