import Tablature.Orientation

/-!
# Marks

What a player reads off a stave, before it has a place on the page: fret signs,
rhythm signs, barlines, ornaments. A mark knows the slot it belongs to and its
musical content, and no coordinates.

- `Mark.slot`: the slot a mark belongs to.
- `Mark.courses`: the courses a mark stands on.
-/

namespace Tablature

/-- Note values. -/
inductive Duration where
  | breve
  | minim
  | crotchet
  | quaver
  | semiquaver
  deriving DecidableEq, Repr

namespace Duration

/-- How many tails hang from the stem. -/
def tails : Duration → Nat
  | quaver => 1
  | semiquaver => 2
  | _ => 0

/-- Only the breve has no stem. -/
def hasStem : Duration → Bool
  | breve => false
  | _ => true

/-- The two longest values have an open head. -/
def isHollow : Duration → Bool
  | breve | minim => true
  | _ => false

end Duration

/-- A note value, or that value and half as much again. -/
structure Rhythm where
  duration : Duration
  dotted : Bool
  deriving DecidableEq, Repr

/-- The kinds of barline. -/
inductive BarlineKind where
  | single
  | double
  | short
  | longShort
  | triple
  | final
  deriving DecidableEq, Repr

/-- Single and double barlines take a slot of their own; the others stand on the grid
beside the notes around them. -/
def BarlineKind.takesSlot : BarlineKind → Bool
  | single | double => true
  | _ => false

/-- What a time signature says. -/
inductive Meter where
  /-- One figure. -/
  | single (figure : String)
  /-- One figure over another. -/
  | fraction (top bottom : String)
  /-- The sign for common time. -/
  | common
  /-- The sign for common time with a stroke. -/
  | cut
  deriving DecidableEq, Repr

/-- One end of a slur. -/
structure Anchor where
  slot : Nat
  course : Nat
  deriving DecidableEq, Repr

/-- The side of a fret sign that a semicircle stands on. -/
inductive Side where
  | over
  | under
  deriving DecidableEq, Repr

/-- What can be written on a stave. -/
inductive Mark where
  /-- A fret sign on the line of a course. -/
  | note (slot course : Nat) (fret : String)
  /-- A rhythm sign above the stave. -/
  | tick (slot : Nat) (rhythm : Rhythm)
  | barline (kind : BarlineKind) (slot : Nat) (label : Option String)
  /-- A decorated thick barline over a range of courses, or over all of them. -/
  | barberpole (slot : Nat) (range : Option (Nat × Nat))
  | timeSignature (slot : Nat) (meter : Meter)
  /-- A short slur on one side of a fret sign. -/
  | semicircle (side : Side) (slot course : Nat)
  | slur (start stop : Anchor)
  /-- The sign that a section begins. -/
  | sectionSign (slot : Nat)
  /-- A chord letter. -/
  | alfabeto (slot : Nat) (chord : String)
  /-- Strokes up (`U`) and down (`D`); any other character is a gap. -/
  | strum (slot : Nat) (pattern : String)
  deriving DecidableEq, Repr

/-- The slot a mark belongs to; for a slur, the slot it ends at. -/
def Mark.slot : Mark → Nat
  | note slot _ _ => slot
  | tick slot _ => slot
  | barline _ slot _ => slot
  | barberpole slot _ => slot
  | timeSignature slot _ => slot
  | semicircle _ slot _ => slot
  | slur _ stop => stop.slot
  | sectionSign slot => slot
  | alfabeto slot _ => slot
  | strum slot _ => slot

/-- The courses that a mark stands on, on a stave with so many of them: two for a slur and for a
barberpole, which ends at the outer courses if none are given. -/
def Mark.courses (count : Nat) : Mark → List Nat
  | note _ course _ | semicircle _ _ course => [course]
  | slur start stop => [start.course, stop.course]
  | barberpole _ range => [(range.getD (1, count)).1, (range.getD (1, count)).2]
  | _ => []

end Tablature
