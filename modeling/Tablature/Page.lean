import Tablature.Stave

/-!
# Pages

A page carries staves, stacked from the top margin downwards, and may carry a title
and a composer. Its measures are those of the layout at the time it was begun.

- `Page.putStave`, `Page.append`: puts a stave below the others.
- `Page.capacity`: how many staves fit.
-/

namespace Tablature

/-- A line of text at the head of a page. -/
structure Heading (α : Type) where
  text : String
  style : TextStyle α
  y : α
  deriving DecidableEq, Repr

structure Page (α : Type) where
  number : Nat
  /-- Whether it is the first page of its document. -/
  first : Bool
  width : α
  height : α
  topMargin : α
  leftMargin : α
  rightMargin : α
  staveSeparation : α
  title : Option (Heading α)
  composer : Option (Heading α)
  staves : List (Stave α)
  deriving DecidableEq, Repr

namespace Page

variable {α : Type}

/-- The stave that is being written: the last one. -/
def currentStave? (p : Page α) : Option (Stave α) := p.staves.getLast?

/-- The page with another stave in place of the last one. -/
def setCurrentStave (p : Page α) (s : Stave α) : Page α :=
  { p with staves := p.staves.dropLast ++ [s] }

@[simp]
theorem currentStave?_setCurrentStave (p : Page α) (s : Stave α) :
    (p.setCurrentStave s).currentStave? = some s := by
  simp [setCurrentStave, currentStave?]

variable [Scalar α]

/-- An empty page with the measures of the layout. -/
def blank (l : Layout α) (number : Nat) (first : Bool) : Page α where
  number
  first
  width := l.pageWidth
  height := l.pageHeight
  topMargin := l.topMargin
  leftMargin := l.leftMargin
  rightMargin := l.rightMargin
  staveSeparation := l.staveSeparation
  title := none
  composer := none
  staves := []

def setTitle (p : Page α) (l : Layout α) (text : String) : Page α :=
  { p with title := some ⟨text, l.titleStyle, l.titleLine⟩ }

def setComposer (p : Page α) (l : Layout α) (text : String) : Page α :=
  { p with composer := some ⟨text, l.composerStyle, l.composerLine⟩ }

/-- The room between the margins. -/
def staveLength (p : Page α) : α := p.width - p.leftMargin - p.rightMargin

/-- The height of the bottom line of a stave, with `index` staves of its height above it. -/
def staveY (p : Page α) (index : Nat) (staveHeight : α) : α :=
  p.height - p.topMargin - Scalar.count index * (staveHeight + p.staveSeparation)

/-- How many staves of a height fit below the top margin. -/
def capacity (p : Page α) (staveHeight : α) : Nat :=
  Scalar.toCount
    (Scalar.floor ((p.height - p.topMargin) / (staveHeight + p.staveSeparation)))

/-- Puts a stave below the others, from the left margin to the right one. The bottom of the
page is no limit. -/
def putStave (s : Stave α) : Work (Stop α) (Page α) Unit := do
  let p ← get
  if p.staveLength ≤ 0.0 then throw (.fault (.degenerateStave p.number p.staveLength))
  else
    let y := p.staveY p.staves.length s.height
    set { p with staves := p.staves ++ [s.moveTo p.leftMargin y p.staveLength] }

/-- The page with one more stave, or why there is no room for it. -/
def append (p : Page α) (s : Stave α) : Except (Stop α) (Page α) := (putStave s).outcome p

def justify (p : Page α) : Page α := { p with staves := p.staves.map Stave.justify }

/-- The title in the middle, the composer towards the right, and the staves. Every page but
the first begins by ending the page before it. -/
def draw (p : Page α) : List (Command α) :=
  let heading (h : Heading α) (x : α) (align : Align) : Command α :=
    .text h.text x h.y h.style.size h.style.face align
  (if p.first then [] else [.pageBreak]) ++
    (p.title.elim [] fun h => [heading h (p.width / 2.0) .centre]) ++
    (p.composer.elim [] fun h => [heading h (p.width - p.leftMargin) .right]) ++
    p.staves.flatMap Stave.draw

end Page

end Tablature
