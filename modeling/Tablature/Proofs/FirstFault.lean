import Tablature.Proofs.Lockstep
import Tablature.Proofs.Refused
import Tablature.Proofs.Residue
import Tablature.Proofs.Source

/-!
# The first fault

A source stops at the first line that cannot be written, and its fault names that
line; only a page without room for a stave is a fault of no line. So a fault is told
by the line it is found on and by what it says besides, and two runs in lockstep
whose lines are numbered alike stop at the very same fault.

* `Stop.IsOn`, `isOn_of_step`: a line that cannot be written is the line of its fault;
* `Score.StopsAt`, `stepAll_eq_error_iff`: the line that a run stops at;
* `isCountable_of_step`: the stave of a sum that is too large;
* `Simulation.agree_stepAll_later`: two runs in lockstep, of which the first has the
  lines of the second some lines later.
-/

namespace Tablature

variable {α : Type}

/-- The fault found `k` lines further down. -/
def Fault.later (k : Nat) : Fault α → Fault α
  | malformedDirective line directive refusal => malformedDirective (line + k) directive refusal
  | malformedNote line token => malformedNote (line + k) token
  | courseOutOfRange line course courses => courseOutOfRange (line + k) course courses
  | unmatchedSlur line course => unmatchedSlur (line + k) course
  | noPage line directive => noPage (line + k) directive
  | noStave line directive => noStave (line + k) directive
  | degenerateStave page length => degenerateStave page length

namespace Stop

/-- What stops a source, `k` lines further down. -/
def later (k : Nat) : Stop α → Stop α
  | fault f => fault (f.later k)
  | overflow => overflow

@[simp] theorem later_zero (e : Stop α) : e.later 0 = e := by
  cases e with
  | fault f => cases f <;> rfl
  | overflow => rfl

/-- The source is stopped by a fault on this line, or by what is the fault of no line. -/
def IsOn (e : Stop α) (line : Nat) : Prop := ∀ i ∈ e.line?, i = line

theorem isOn_overflow (line : Nat) : (overflow : Stop α).IsOn line := by
  simp [IsOn, line?]

/-- What a fault says, and where it is found, is the whole fault. -/
theorem eq_later_of_alike {e f : Stop α} {k line : Nat} (h : e.Alike f) (he : e.IsOn (line + k))
    (hf : f.IsOn line) : e = f.later k := by
  unfold IsOn at he hf
  unfold Alike at h
  cases e with
  | overflow => cases f <;> simp_all [unnumbered, later]
  | fault e =>
    cases f with
    | overflow => simp_all [unnumbered]
    | fault f =>
      cases e <;> cases f <;> simp_all [unnumbered, Fault.unnumbered, later, Fault.later, line?,
        Fault.line?]

end Stop

/-- The lines of a source are numbered from one. -/
theorem number_of_tokenize {source : String} {before after : List NumberedLine} {n : NumberedLine}
    (h : Line.tokenize source = before ++ n :: after) : n.number = before.length + 1 := by
  have hn : (Line.tokenize source)[before.length]? = some n := by
    rw [h, List.getElem?_append_right (Nat.le_refl _), Nat.sub_self, List.getElem?_cons_zero]
  unfold Line.tokenize at hn
  rw [List.getElem?_map, List.getElem?_zipIdx, Option.map_map] at hn
  obtain ⟨text, -, rfl⟩ := Option.map_eq_some_iff.1 hn
  exact Nat.add_comm 1 _

variable [Scalar α]

/-! ## The line of a fault -/

theorem Stave.isOn_of_writeToken {l : Layout α} {line : Nat} {v : Stave α} {token : List Char}
    {e : Stop α} (h : v.writeToken l line token = .error e) : e.IsOn line := by
  rw [writeToken_eq] at h
  split at h
  · cases h; simp [Stop.IsOn, Stop.line?, Fault.line?]
  split at h
  · split at h
    · split at h
      · cases h
      · cases h; exact Stop.isOn_overflow line
    · cases h; simp [Stop.IsOn, Stop.line?, Fault.line?]
  · cases h; simp [Stop.IsOn, Stop.line?, Fault.line?]

namespace Score

theorem Refused.isOn {s : Score α} {n : NumberedLine} {f : Fault α} (h : s.Refused n f) :
    (Stop.fault f).IsOn n.number := by
  cases h <;> simp [Stop.IsOn, Stop.line?, Fault.line?]

/-- A note line that cannot be written has no stave to stand on, or a token that cannot be
written. -/
theorem exists_token_of_step {s : Score α} {n : NumberedLine} {rhythm : Option Rhythm}
    {tokens : String} (hn : n.line = .notes rhythm tokens) {e : Stop α} (h : s.step n = .error e) :
    s.staveFor n = .error e ∨ ∃ (v w : Stave α) (token : List Char), s.document.currentStave? = some v ∧
      w.toGrid = v.toGrid ∧ w.writeToken s.layout n.number token = .error e := by
  obtain ⟨number, line⟩ := n
  obtain rfl : line = .notes rhythm tokens := hn
  rw [step_eq] at h
  refine (bind_eq_error.1 h).imp_right ?_
  rintro ⟨v, hv, h⟩
  obtain h | ⟨u, -, h⟩ := bind_eq_error.1 (map_eq_error.1 h)
  · obtain ⟨written, faulty, rest, w, -, hw, hfaulty⟩ := Stave.writeTokens_eq_error h
    have hacts := (Stave.acts_writeRhythm s.layout v rhythm).trans (Stave.acts_writeTokens hw)
    exact ⟨v, w, faulty, staveFor_eq_ok.1 hv, Stave.Acts.toGrid_eq hacts, hfaulty⟩
  · cases h

/-- A fault is found on the line that cannot be written. -/
theorem isOn_of_step {s : Score α} {n : NumberedLine} {e : Stop α} (h : s.step n = .error e) :
    e.IsOn n.number := by
  by_cases hn : ∃ rhythm tokens, n.line = .notes rhythm tokens
  · obtain ⟨rhythm, tokens, hn⟩ := hn
    obtain h | ⟨v, w, token, -, -, h⟩ := exists_token_of_step hn h
    · obtain ⟨-, rfl⟩ | ⟨_, -, -, rfl⟩ := staveFor_eq_error_iff.1 h <;>
        simp [Stop.IsOn, Stop.line?, Fault.line?]
    · exact Stave.isOn_of_writeToken h
  · cases stopped_of_step (fun rhythm tokens e => hn ⟨rhythm, tokens, e⟩) h with
    | refused hf => exact hf.isOn
    | uncounted => exact Stop.isOn_overflow _

/-- A sum is too large only where the lines of the current stave cannot be counted. -/
theorem isCountable_of_step {s : Score α} {n : NumberedLine} (h : s.step n = .error .overflow) :
    ∃ v, s.document.currentStave? = some v ∧ v.isCountable = false := by
  by_cases hn : ∃ rhythm tokens, n.line = .notes rhythm tokens
  · obtain ⟨rhythm, tokens, hn⟩ := hn
    obtain h | ⟨v, w, token, hv, hgrid, h⟩ := exists_token_of_step hn h
    · obtain ⟨-, ⟨⟩⟩ | ⟨_, -, -, ⟨⟩⟩ := staveFor_eq_error_iff.1 h
    · refine ⟨v, hv, Bool.eq_false_iff.2 fun hcount => ?_⟩
      rw [Stave.writeToken_eq, hgrid] at h
      split at h
      · cases h
      split at h
      · split at h
        · rw [if_pos (.inr hcount)] at h
          cases h
        · cases h
      · cases h
  · cases stopped_of_step (fun rhythm tokens e => hn ⟨rhythm, tokens, e⟩) h with
    | uncounted _ hv hcount => exact ⟨_, hv, hcount⟩

/-- A run stops at a line: the lines before it can be written, the line itself cannot. -/
def StopsAt (s : Score α) (lines : List NumberedLine) (n : NumberedLine) (e : Stop α) : Prop :=
  ∃ before after t, lines = before ++ n :: after ∧ s.stepAll before = .ok t ∧ t.step n = .error e

/-- A run that fails stops at some line. -/
theorem stepAll_eq_error_iff {s : Score α} {lines : List NumberedLine} {e : Stop α} :
    s.stepAll lines = .error e ↔ ∃ n, s.StopsAt lines n e := by
  constructor
  · intro h
    unfold stepAll at h
    induction lines generalizing s with
    | nil => cases h
    | cons n lines ih =>
      rw [List.foldlM_cons] at h
      obtain h | ⟨t, ht, h⟩ := bind_eq_error.1 h
      · exact ⟨n, [], lines, s, rfl, rfl, h⟩
      · obtain ⟨m, before, after, u, rfl, hu, hm⟩ := ih h
        exact ⟨m, n :: before, after, u, rfl, bind_eq_ok.2 ⟨t, ht, hu⟩, hm⟩
  · rintro ⟨n, before, after, t, rfl, ht, hn⟩
    rw [stepAll_append, ht]
    exact bind_eq_error.2 (.inr ⟨t, rfl, bind_eq_error.2 (.inl hn)⟩)

/-- A source is stopped by what its lines are stopped by. -/
theorem parse_eq_error {source : String} {e : Stop α} :
    parse source = .error e ↔ (empty : Score α).stepAll (Line.tokenize source) = .error e := by
  unfold parse
  cases (empty : Score α).stepAll (Line.tokenize source) <;> simp [Except.map]

/-- So it is in a run: the lines before the one that is stopped have begun such a stave. -/
theorem exists_uncountable_of_stepAll {s : Score α} {lines : List NumberedLine}
    (h : s.stepAll lines = .error .overflow) :
    ∃ (before : List NumberedLine) (t : Score α) (v : Stave α), before <+: lines ∧
      s.stepAll before = .ok t ∧ t.document.currentStave? = some v ∧ v.orientation = .french ∧
      Count.max ≤ v.courses := by
  obtain ⟨n, before, after, t, rfl, ht, hn⟩ := stepAll_eq_error_iff.1 h
  obtain ⟨v, hv, hcount⟩ := isCountable_of_step hn
  have hmax : ¬ (v.orientation = .french → v.courses < Count.max) := by
    rwa [← Grid.isCountable_iff, Bool.not_eq_true]
  obtain ⟨hfrench, hmax⟩ := Classical.not_imp.1 hmax
  exact ⟨before, t, v, List.prefix_append _ _, ht, hv, hfrench, Nat.not_lt.1 hmax⟩

end Score

/-! ## Runs in lockstep -/

theorem sameBut_later (k : Nat) (idle idle' : Line → Prop) (ns : List NumberedLine) :
    SameBut (fun m n => m = n.later k) idle idle' (ns.map (.later k)) ns := by
  induction ns with
  | nil => exact .nil
  | cons n ns ih => exact .both rfl ih

namespace Simulation

variable {out : Stop α → Prop} {kinds : Line → Prop} {R : Layout α → Layout α → Prop}
  {E : Page α → Page α → Prop} {T : Stave α → Stave α → Prop} (H : Simulation out kinds R E T)

include H

/-- Two runs of which the first has the lines of the second, each `k` lines later, go in step,
fault and all, unless the first is out. -/
theorem agree_stepAll_later {k : Nat} {ms ns : List NumberedLine}
    (hkinds : ∀ m ∈ ms, kinds m.line)
    (h : SameBut (fun m n => m = n.later k) (Line.IsUnseen R) (Line.IsUnseen (flip R)) ms ns)
    {s t : Score α} (hst : s.InStep R E T t) :
    (∃ e, out e ∧ s.stepAll ms = .error e) ∨
      Agree (fun e f => e = f.later k) (Score.InStep R E T) (s.stepAll ms) (t.stepAll ns) := by
  refine H.agree_stepAll ?_ ?_ hkinds h hst
  · rintro m n rfl
    rfl
  · rintro s t m n e f rfl he hf halike
    exact Stop.eq_later_of_alike halike (Score.isOn_of_step he) (Score.isOn_of_step hf)

end Simulation

end Tablature
