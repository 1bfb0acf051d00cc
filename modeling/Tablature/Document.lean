import Tablature.Page

/-!
# Documents

A document is a list of pages. Writing happens on the last stave of the last page.

- `Document.justify`: justifies every stave.
- `Document.openSlurs`: the slurs that never end.
- `Document.draw`: the drawing of all pages.
- `Document.render`: the drawing, where the lines of all staves can be counted.
- `currentStave?_setCurrentStave`: what is put in place of the current stave is current.
- `draw_of_render`: what is drawn is the drawing of all pages.
-/

namespace Tablature

structure Document (α : Type) where
  pages : List (Page α)
  deriving DecidableEq, Repr

/-- A slur that never ends: the number of its page, its stave counted from one on that page,
and where it begins. -/
structure OpenSlur where
  page : Nat
  stave : Nat
  start : Anchor
  deriving DecidableEq, Repr

namespace Document

variable {α : Type}

def empty : Document α := ⟨[]⟩

def isEmpty (d : Document α) : Bool := d.pages.isEmpty

/-- The page that is being written: the last one. -/
def currentPage? (d : Document α) : Option (Page α) := d.pages.getLast?

/-- The stave that is being written: the last one of the last page. -/
def currentStave? (d : Document α) : Option (Stave α) := d.currentPage?.bind Page.currentStave?

def addPage (d : Document α) (p : Page α) : Document α := ⟨d.pages ++ [p]⟩

/-- The document with another page in place of the last one. -/
def setCurrentPage (d : Document α) (p : Page α) : Document α := ⟨d.pages.dropLast ++ [p]⟩

@[simp]
theorem currentPage?_addPage (d : Document α) (p : Page α) :
    (d.addPage p).currentPage? = some p := by
  simp [addPage, currentPage?]

@[simp]
theorem currentPage?_setCurrentPage (d : Document α) (p : Page α) :
    (d.setCurrentPage p).currentPage? = some p := by
  simp [setCurrentPage, currentPage?]

/-- The document with another stave in place of the one being written. -/
def setCurrentStave (d : Document α) (s : Stave α) : Document α :=
  match d.currentPage? with
  | none => d
  | some p => d.setCurrentPage (p.setCurrentStave s)

/-- On a document with a page, the stave put in place is the one being written. -/
theorem currentStave?_setCurrentStave {d : Document α} {p : Page α} (h : d.currentPage? = some p)
    (s : Stave α) : (d.setCurrentStave s).currentStave? = some s := by
  simp [setCurrentStave, currentStave?, h]

/-- The slurs that never end, in reading order. -/
def openSlurs (d : Document α) : List OpenSlur :=
  d.pages.flatMap fun p =>
    p.staves.zipIdx.filterMap fun (s, i) => s.openSlur.map fun start => ⟨p.number, i + 1, start⟩

variable [Scalar α]

def justify (d : Document α) : Document α := ⟨d.pages.map Page.justify⟩

/-- The drawing of all pages. -/
def draw (d : Document α) : List (Command α) := d.pages.flatMap Page.draw

/-- Draws all pages, if the lines of all staves can be counted. -/
def render (d : Document α) : Except (Stop α) (List (Command α)) :=
  if d.pages.all fun p => p.staves.all (·.isCountable) then .ok d.draw else .error .overflow

theorem draw_of_render {d : Document α} {commands : List (Command α)}
    (h : d.render = .ok commands) : d.draw = commands := by
  unfold render at h
  split at h
  · exact Except.ok.inj h
  · cases h

end Document

end Tablature
