import Tablature.Proofs.InPlace

/-!
# Two runs of work

Two pieces of work are run side by side on two related states. They keep abreast if
both are done, or both are stopped by related stops, and leave related states behind
either way. Where it says so, the first run may be out of it instead.

* `Agree`: two results that go together;
* `Work.Abreast`: two runs that keep abreast;
* `Abreast.bind`, `Abreast.forM`, `Abreast.within` and the like: work by its parts;
* `Abreast.agree`, `Abreast.after`, `Abreast.stop?`: what keeping abreast says of the
  outcomes and of what is left behind.
-/

namespace Tablature

section

variable {ε ε' β β' γ γ' : Type} {F : ε → ε' → Prop} {R : β → β' → Prop} {S : γ → γ' → Prop}

/-- Two results that go together: both are there and related, or both are errors and related. -/
inductive Agree (F : ε → ε' → Prop) (R : β → β' → Prop) : Except ε β → Except ε' β' → Prop where
  | ok {b : β} {b' : β'} : R b b' → Agree F R (.ok b) (.ok b')
  | error {e : ε} {e' : ε'} : F e e' → Agree F R (.error e) (.error e')

namespace Agree

variable {x : Except ε β} {y : Except ε' β'}

theorem bind {f : β → Except ε γ} {g : β' → Except ε' γ'} (h : Agree F R x y)
    (hfg : ∀ b b', R b b' → Agree F S (f b) (g b')) : Agree F S (x >>= f) (y >>= g) := by
  cases h with
  | ok h => exact hfg _ _ h
  | error h => exact .error h

/-- Errors that go together may be known better by what they are errors of. -/
theorem imp {F' : ε → ε' → Prop} {R' : β → β' → Prop} (h : Agree F R x y)
    (hF : ∀ e e', x = .error e → y = .error e' → F e e' → F' e e')
    (hR : ∀ b b', R b b' → R' b b') : Agree F' R' x y := by
  cases h with
  | ok h => exact .ok (hR _ _ h)
  | error h => exact .error (hF _ _ rfl rfl h)

theorem imp_ok {R' : β → β' → Prop} (h : Agree F R x y) (hR : ∀ b b', R b b' → R' b b') :
    Agree F R' x y :=
  h.imp (fun _ _ _ _ => id) hR

theorem exists_ok {b : β} (h : Agree F R (.ok b) y) : ∃ b', y = .ok b' ∧ R b b' := by
  cases h with
  | ok h => exact ⟨_, rfl, h⟩

end Agree

end

namespace Work

variable {ε ε' σ σ' τ τ' β β' : Type}

/-- Two runs that keep abreast. Where the first is stopped by what counts as `out`, nothing is
said of the second. -/
inductive Abreast (out : ε → Prop) (F : ε → ε' → Prop) (S : σ → σ' → Prop) :
    EStateM.Result ε σ Unit → EStateM.Result ε' σ' Unit → Prop where
  | ok {s : σ} {s' : σ'} : S s s' → Abreast out F S (.ok () s) (.ok () s')
  | error {e : ε} {e' : ε'} {s : σ} {s' : σ'} : F e e' → S s s' →
    Abreast out F S (.error e s) (.error e' s')
  | out {e : ε} {s : σ} {r : EStateM.Result ε' σ' Unit} : out e → Abreast out F S (.error e s) r

namespace Abreast

variable {out : ε → Prop} {F : ε → ε' → Prop} {S : σ → σ' → Prop} {w : Work ε σ Unit}
  {w' : Work ε' σ' Unit} {s : σ} {s' : σ'}

/-! ## Work by its parts -/

theorem bind {f : Unit → Work ε σ Unit} {f' : Unit → Work ε' σ' Unit}
    (h : Abreast out F S (w.run s) (w'.run s'))
    (hf : ∀ t t', S t t' → Abreast out F S ((f ()).run t) ((f' ()).run t')) :
    Abreast out F S ((w >>= f).run s) ((w' >>= f').run s') := by
  rw [EStateM.run_bind, EStateM.run_bind]
  generalize w.run s = r, w'.run s' = r' at h
  cases h with
  | ok h => exact hf _ _ h
  | error hF hS => exact .error hF hS
  | out ho => exact .out ho

theorem modify {f : σ → σ} {f' : σ' → σ'} (h : S (f s) (f' s')) :
    Abreast out F S ((modify f : Work ε σ Unit).run s) ((modify f' : Work ε' σ' Unit).run s') :=
  .ok h

theorem get_bind {f : σ → Work ε σ Unit} {f' : σ' → Work ε' σ' Unit}
    (h : Abreast out F S ((f s).run s) ((f' s').run s')) :
    Abreast out F S ((get >>= f).run s) ((get >>= f').run s') := h

theorem ofExcept_bind {R : β → β' → Prop} {r : Except ε β} {r' : Except ε' β'}
    {f : β → Work ε σ Unit} {f' : β' → Work ε' σ' Unit} (h : Agree F R r r') (hs : S s s')
    (hf : ∀ b b', R b b' → Abreast out F S ((f b).run s) ((f' b').run s')) :
    Abreast out F S ((ofExcept r >>= f).run s) ((ofExcept r' >>= f').run s') := by
  cases h with
  | ok h => exact hf _ _ h
  | error h => exact .error h hs

theorem forM {f : β → Work ε σ Unit} {f' : β → Work ε' σ' Unit} (xs : List β)
    (hf : ∀ x s s', S s s' → Abreast out F S ((f x).run s) ((f' x).run s')) (hs : S s s') :
    Abreast out F S ((xs.forM f).run s) ((xs.forM f').run s') := by
  induction xs generalizing s s' with
  | nil => exact .ok hs
  | cons x xs ih =>
    rw [List.forM_eq_forM, List.forM_eq_forM, List.forM_cons, List.forM_cons,
      ← List.forM_eq_forM, ← List.forM_eq_forM]
    exact (hf x s s' hs).bind fun t t' => ih

theorem within {T : τ → τ' → Prop} {part : τ} {part' : τ'} {put : σ → τ → σ} {put' : σ' → τ' → σ'}
    {w : Work ε τ Unit} {w' : Work ε' τ' Unit} (h : Abreast out F T (w.run part) (w'.run part'))
    (hput : ∀ t t', T t t' → S (put s t) (put' s' t')) :
    Abreast out F S ((within part put w).run s) ((within part' put' w').run s') := by
  rw [run_within, run_within]
  generalize w.run part = r, w'.run part' = r' at h
  cases h with
  | ok h => exact .ok (hput _ _ h)
  | error hF hT => exact .error hF (hput _ _ hT)
  | out ho => exact .out ho

/-- Of work that leaves the state alone when it is stopped it is enough to know what it comes
to. -/
theorem of_outcome (h : Agree F S (w.outcome s) (w'.outcome s')) (hs : S s s')
    (hw : ∀ e, w.Spares e s) (hw' : ∀ e, w'.Spares e s') :
    Abreast out F S (w.run s) (w'.run s') := by
  unfold outcome at h
  cases hr : w.run s <;> cases hr' : w'.run s' <;> rw [hr, hr'] at h <;> cases h
  · rename_i h
    exact .ok h
  · rename_i hF
    rw [hw _ _ hr, hw' _ _ hr']
    exact .error hF hs

/-! ## What keeping abreast says -/

/-- The outcomes go together, unless the first run is out. -/
theorem agree (h : Abreast out F S (w.run s) (w'.run s')) :
    (∃ e, out e ∧ w.outcome s = .error e) ∨ Agree F S (w.outcome s) (w'.outcome s') := by
  unfold outcome
  generalize w.run s = r, w'.run s' = r' at h
  cases h with
  | ok h => exact .inr (.ok h)
  | error hF _ => exact .inr (.error hF)
  | out ho => exact .inl ⟨_, ho, rfl⟩

section

variable (h : Abreast (fun _ => False) F S (w.run s) (w'.run s'))

include h

theorem after : S (w.after s) (w'.after s') := by
  unfold Work.after
  generalize w.run s = r, w'.run s' = r' at h
  cases h with
  | ok h => exact h
  | error _ hS => exact hS
  | out ho => exact ho.elim

theorem stop? : Option.Rel F (w.stop? s) (w'.stop? s') := by
  unfold Work.stop?
  generalize w.run s = r, w'.run s' = r' at h
  cases h with
  | ok _ => exact .none
  | error hF _ => exact .some hF
  | out ho => exact ho.elim

end

end Abreast

end Work

end Tablature
