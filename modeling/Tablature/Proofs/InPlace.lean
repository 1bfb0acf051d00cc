import Tablature.Work

/-!
# What work does

Work is told by its runs, done or stopped. What comes of work that is done, and what
stops it, is worked out from its parts as for functions that return a new state. What
stopped work leaves behind has to be looked for in the run itself.

* `outcome_bind`, `outcome_forM`, `outcome_within` and the like: the outcome of work
  by those of its parts;
* `run_forM_eq_error`: a row of work is done up to the first piece that is stopped;
* `Work.Spares`: work that has changed nothing when it is stopped, and so can be
  stopped only before its first change.
-/

namespace Tablature

namespace Work

variable {ε ε' σ τ β γ : Type} {w : Work ε σ β} {s t : σ} {e : ε}

/-! ## Runs, outcomes and what is left behind -/

theorem stop?_eq_some : w.stop? s = some e ↔ w.outcome s = .error e := by
  unfold stop? outcome
  cases w.run s <;> simp

theorem stop?_eq_none : w.stop? s = none ↔ w.outcome s = .ok (w.after s) := by
  unfold stop? outcome after
  cases w.run s <;> simp

theorem after_of_outcome (h : w.outcome s = .ok t) : w.after s = t := by
  unfold outcome at h
  unfold after
  cases hr : w.run s <;> simp_all

theorem outcome_of_run (h : w.run s = .error e t) : w.outcome s = .error e := by
  unfold outcome
  rw [h]

theorem run_eq_ok {w : Work ε σ Unit} : w.run s = .ok () t ↔ w.outcome s = .ok t := by
  unfold outcome
  cases w.run s <;> simp

theorem run_eq_error : w.run s = .error e t ↔ w.outcome s = .error e ∧ w.after s = t := by
  unfold outcome after
  cases w.run s <;> simp

/-- Work that is stopped leaves behind what it had done by then. -/
theorem after_bind {w : Work ε σ Unit} {f : Unit → Work ε σ β} :
    (w >>= f).after s = if (w.stop? s).isSome then w.after s else (f ()).after (w.after s) := by
  unfold after stop?
  rw [EStateM.run_bind]
  cases w.run s <;> rfl

theorem after_get_bind (f : σ → Work ε σ β) : (get >>= f).after s = (f s).after s := rfl

theorem after_ofExcept_bind (r : Except ε γ) (f : γ → Work ε σ β) :
    (ofExcept r >>= f).after s =
      match r with
      | .ok c => (f c).after s
      | .error _ => s := by
  cases r <;> rfl

theorem run_within (part : τ) (put : σ → τ → σ) (w : Work ε τ β) :
    (within part put w).run s =
      match w.run part with
      | .ok b t => .ok b (put s t)
      | .error e t => .error e (put s t) := rfl

theorem after_within (part : τ) (put : σ → τ → σ) (w : Work ε τ β) :
    (within part put w).after s = put s (w.after part) := by
  unfold after
  rw [run_within]
  cases w.run part <;> rfl

/-! ## Outcomes by parts -/

@[simp] theorem outcome_throw (e : ε) : outcome (throw e : Work ε σ β) s = .error e := rfl

@[simp] theorem outcome_set (t : σ) : outcome (set t : Work ε σ PUnit) s = .ok t := rfl

@[simp] theorem outcome_modify (f : σ → σ) : outcome (modify f : Work ε σ PUnit) s = .ok (f s) := rfl

@[simp] theorem outcome_get_bind (f : σ → Work ε σ β) :
    outcome (get >>= f) s = (f s).outcome s := rfl

@[simp] theorem outcome_ofExcept_bind (r : Except ε γ) (f : γ → Work ε σ β) :
    outcome (ofExcept r >>= f) s = r >>= fun c => (f c).outcome s := by
  cases r <;> rfl

theorem outcome_ofExcept_modify (r : Except ε γ) (f : γ → σ → σ) :
    outcome (ofExcept r >>= fun c => modify (f c) : Work ε σ PUnit) s = r.map fun c => f c s := by
  cases r <;> rfl

theorem outcome_bind (w : Work ε σ Unit) (f : Unit → Work ε σ β) :
    outcome (w >>= f) s = w.outcome s >>= (f ()).outcome := by
  simp only [outcome, EStateM.run_bind]
  cases w.run s <;> rfl

@[simp] theorem outcome_ite (c : Prop) [Decidable c] (w w' : Work ε σ β) :
    outcome (if c then w else w') s = if c then w.outcome s else w'.outcome s := by
  split <;> rfl

@[simp] theorem outcome_within (part : τ) (put : σ → τ → σ) (w : Work ε τ β) :
    outcome (within part put w) s = (w.outcome part).map (put s) := by
  unfold outcome
  rw [run_within]
  cases w.run part <;> rfl

@[simp] theorem outcome_adaptExcept (f : ε → ε') (w : Work ε σ β) :
    outcome (w.adaptExcept f) s = (w.outcome s).mapError f := by
  simp only [outcome, EStateM.run_adaptExcept]
  cases w.run s <;> rfl

/-- A row of work comes to what its pieces come to, one after the other. -/
theorem outcome_forM (xs : List β) (f : β → Work ε σ Unit) :
    outcome (xs.forM f) s = xs.foldlM (fun s x => (f x).outcome s) s := by
  induction xs generalizing s with
  | nil => rfl
  | cons x xs ih =>
    rw [List.forM_eq_forM, List.forM_cons, ← List.forM_eq_forM, outcome_bind, List.foldlM_cons]
    cases (f x).outcome s with
    | ok t => exact ih
    | error e => rfl

/-! ## Runs by parts -/

theorem run_bind_eq_error {f : β → Work ε σ γ} : (w >>= f).run s = .error e t ↔
    w.run s = .error e t ∨ ∃ b u, w.run s = .ok b u ∧ (f b).run u = .error e t := by
  rw [EStateM.run_bind]
  cases w.run s with
  | ok b u => exact ⟨fun h => .inr ⟨b, u, rfl, h⟩, by rintro (⟨⟨⟩⟩ | ⟨_, _, ⟨⟩, h⟩); exact h⟩
  | error e' u => simp

/-- A row of work that is stopped is done up to its first piece that is stopped. -/
theorem run_forM_eq_error {xs : List β} {f : β → Work ε σ Unit}
    (h : (xs.forM f).run s = .error e t) :
    ∃ done x rest u, xs = done ++ x :: rest ∧
      done.foldlM (fun s x => (f x).outcome s) s = .ok u ∧ (f x).run u = .error e t := by
  induction xs generalizing s with
  | nil => cases h
  | cons x xs ih =>
    rw [List.forM_eq_forM, List.forM_cons, ← List.forM_eq_forM, run_bind_eq_error] at h
    obtain h | ⟨_, u, hu, h⟩ := h
    · exact ⟨[], x, xs, s, rfl, rfl, h⟩
    · obtain ⟨done, y, rest, v, rfl, hdone, hy⟩ := ih h
      refine ⟨x :: done, y, rest, v, rfl, ?_, hy⟩
      rw [List.foldlM_cons, run_eq_ok.1 hu]
      exact hdone

/-! ## Work that spares the state -/

/-- Work on a state that leaves it as it was if `e` stops it. -/
def Spares (e : ε) (w : Work ε σ β) (s : σ) : Prop := ∀ t, w.run s = .error e t → t = s

namespace Spares

theorem after_eq (hw : w.Spares e s) (h : w.outcome s = .error e) : w.after s = s :=
  hw _ (run_eq_error.2 ⟨h, rfl⟩)

/-- Work that is not stopped spares the state. -/
theorem of_ok (h : w.outcome s = .ok t) : w.Spares e s := by
  intro u hu
  rw [outcome_of_run hu] at h
  cases h

theorem throw (e' : ε) : (throw e' : Work ε σ β).Spares e s := by
  intro t h
  cases h
  rfl

theorem get_bind {f : σ → Work ε σ β} (h : (f s).Spares e s) : (get >>= f).Spares e s := h

theorem ofExcept_bind {r : Except ε γ} {f : γ → Work ε σ β}
    (h : ∀ c, r = .ok c → (f c).Spares e s) : (ofExcept r >>= f).Spares e s := by
  cases r with
  | ok c => exact h c rfl
  | error e' => exact .throw e'

/-- More work, which is not stopped, takes nothing away. -/
theorem bind {w : Work ε σ Unit} {f : Unit → Work ε σ β} (hw : w.Spares e s)
    (hf : ∀ u, ∃ v, (f ()).outcome u = .ok v) : (w >>= f).Spares e s := by
  intro t h
  obtain h | ⟨_, u, -, h⟩ := run_bind_eq_error.1 h
  · exact hw t h
  · obtain ⟨v, hv⟩ := hf u
    rw [outcome_of_run h] at hv
    cases hv

theorem within {part : τ} {put : σ → τ → σ} {w : Work ε τ β} (hw : w.Spares e part)
    (hput : put s part = s) : (within part put w).Spares e s := by
  intro t h
  rw [run_within] at h
  cases hr : w.run part with
  | ok b u => rw [hr] at h; cases h
  | error e' u =>
    rw [hr] at h
    cases h
    rw [hw u hr, hput]

theorem adaptExcept {f : ε → ε'} {e : ε'} (hw : ∀ e, w.Spares e s) :
    Spares e (w.adaptExcept f) s := by
  intro t h
  rw [EStateM.run_adaptExcept] at h
  cases hr : w.run s with
  | ok b u => rw [hr] at h; cases h
  | error e' u =>
    rw [hr] at h
    cases h
    exact hw e' t hr

end Spares

end Work

end Tablature
