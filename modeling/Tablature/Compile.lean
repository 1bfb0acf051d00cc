import Tablature.Score
import Tablature.PostScript.Program

/-!
# Compiling

From a source to a PostScript program.

- `compile`: the program of a source, or what has stopped it.
- `exists_document_of_render`: what is drawn is a document that the source writes.
-/

namespace Tablature

/-- The drawing of a source in doubles, or what has stopped it. -/
def render (source : String) : Except (Stop Float) (List (Command Float)) := do
  let document ← Score.parse source
  document.render

theorem exists_document_of_render {source : String} {commands : List (Command Float)}
    (h : render source = .ok commands) :
    ∃ d : Document Float, Score.parse source = .ok d ∧ d.draw = commands := by
  unfold render at h
  cases hd : (Score.parse source : Except (Stop Float) (Document Float)) with
  | ok d =>
    rw [hd] at h
    exact ⟨d, rfl, d.draw_of_render h⟩
  | error e =>
    rw [hd] at h
    cases h

/-- The PostScript program of a source, or what has stopped it. -/
def compile (source : String) : Except (Stop Float) String :=
  (render source).map PostScript.program

end Tablature
