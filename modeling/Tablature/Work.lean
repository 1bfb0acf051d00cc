/-!
# Work in place

Lines are written on a score where it stands. Work on a state may stop before it is
done, and what it has changed by then stays changed.

- `Work.outcome`: the state after work that is done, or what has stopped it.
- `Work.after`: the state that work leaves behind, done or not.
- `Work.within`: work on a part of a state.
-/

namespace Tablature

/-- Work on a state in place. It may stop before it is done. -/
abbrev Work (ε σ β : Type) := EStateM ε σ β

namespace Work

variable {ε σ τ β : Type}

/-- The state that work leaves behind, done or not. -/
def after (w : Work ε σ β) (s : σ) : σ :=
  match w.run s with
  | .ok _ t => t
  | .error _ t => t

/-- What has stopped the work, if anything. -/
def stop? (w : Work ε σ β) (s : σ) : Option ε :=
  match w.run s with
  | .ok _ _ => none
  | .error e _ => some e

/-- The state after work that is done, or what has stopped it. -/
def outcome (w : Work ε σ β) (s : σ) : Except ε σ :=
  match w.run s with
  | .ok _ t => .ok t
  | .error e _ => .error e

/-- Work on a part of a state. The part is put back as the work leaves it. -/
def within (part : τ) (put : σ → τ → σ) (w : Work ε τ β) : Work ε σ β := fun s =>
  match w.run part with
  | .ok b t => .ok b (put s t)
  | .error e t => .error e (put s t)

end Work

end Tablature
