import Tablature.Proofs.Justified
import Tablature.Proofs.Sections
import Tablature.Proofs.Stretch

/-!
# The edges of a justified stave

Justifying brings the last slot before the cursor to the right end of its stave. Most
lines go on to the next slot when they have written in one, so that nothing stands in
the slot of the cursor. Some do not, and what they write last is moved past the end.

* `Mark.trails`: the marks that are written at the cursor and leave it there;
* `Stave.Passed`, `passed_writeLine`: everything else stands before the cursor, after
  every line;
* `Stave.IsWithin`, `isWithin_iff`: which slots of a justified stave lie on it;
* `isWithin_iff_of_parse`: which glyphs of the document of a source do.
-/

namespace Tablature

namespace Mark

/-- Whether the mark is written at the cursor by a line that leaves the cursor where it is. -/
def trails : Mark → Bool
  | barline kind _ _ => !kind.takesSlot
  | barberpole _ _ | alfabeto _ _ => true
  | _ => false

/-- Whether the mark is a final barline, which has its place at the right end of the stave. -/
def isFinal : Mark → Bool
  | barline .final _ _ => true
  | _ => false

end Mark

namespace Stave

/-! ## Lines -/

section

variable {α : Type}

/-- Nothing stands in the slot of the cursor but the marks that trail. -/
structure Passed (v : Stave α) : Prop where
  marks : ∀ x ∈ v.glyphs, x.mark.trails = false → ∀ slot ∈ x.mark.slots, slot ≤ v.cursor - 1
  openSlur : ∀ start ∈ v.openSlur, start.slot ≤ v.cursor - 1

variable [Scalar α] {l : Layout α} {v w : Stave α}

theorem Passed.place (h : v.Passed) {m : Mark}
    (hm : m.trails = false → ∀ slot ∈ m.slots, slot ≤ v.cursor - 1) : (v.place l m).Passed where
  marks x hx := by
    rcases List.mem_append.1 hx with hx | hx
    · exact h.marks x hx
    · rw [List.mem_singleton.1 hx, mark_place]
      exact hm
  openSlur := h.openSlur

/-- Everything is passed when the cursor goes on. -/
theorem WellFormed.passed_advance (h : v.WellFormed) {n : Nat} (hn : 1 ≤ n) :
    (v.advance n).Passed where
  marks x hx _ slot hslot := by
    have hreached : slot ≤ v.cursor := (h.marks x hx).slots slot hslot
    show slot ≤ v.cursor + n - 1
    omega
  openSlur start hstart := by
    have hreached : start.slot ≤ v.cursor := (h.openSlur start hstart).1
    show start.slot ≤ v.cursor + n - 1
    omega

theorem Acts.wellFormed (h : Acts l v w) (hv : v.WellFormed) : w.WellFormed :=
  h.invariant wellFormed_of_act hv

/-- Every line leaves behind it a stave on which nothing stands in the slot of the cursor but the
marks that trail. -/
theorem passed_writeLine {n : NumberedLine} (h : v.writeLine l n = .ok w) (hv : v.WellFormed)
    (hp : v.Passed) : w.Passed := by
  obtain ⟨number, line⟩ := n
  cases line with
  | timeSignature figures =>
    obtain ⟨meter, -, h⟩ := bind_eq_ok.1 h
    cases h
    have hact : Acts l v (v.place l (.timeSignature v.cursor meter)) := .single (.place rfl)
    exact (hact.wellFormed hv).passed_advance (by decide)
  | barline kind label =>
    cases h
    generalize (if label.isEmpty then none else some label) = label
    have hact : Acts l v (v.place l (.barline kind v.cursor label)) := .single (.place rfl)
    split
    · exact (hact.wellFormed hv).passed_advance (Nat.le_refl 1)
    · rename_i hslot
      exact hp.place fun htrails => absurd (by simpa [Mark.trails] using htrails) hslot
  | barberpole text =>
    obtain ⟨range, -, h⟩ := bind_eq_ok.1 h
    split at h
    · cases h
      exact hp.place fun htrails => by cases htrails
    · cases h
  | notes rhythm tokens =>
    obtain ⟨u, hu, h⟩ := bind_eq_ok.1 h
    cases h
    have hacts : Acts l v u := (acts_writeRhythm l v rhythm).trans (acts_writeTokens hu)
    exact (hacts.wellFormed hv).passed_advance (Nat.le_refl 1)
  | strum pattern => cases h; exact hp.place fun _ => by simp [Mark.slots, Mark.slot]
  | alfabeto chord => cases h; exact hp.place fun htrails => by cases htrails
  | sectionSign => cases h; exact hp.place fun _ => by simp [Mark.slots, Mark.slot]
  | blank => cases h; exact hv.passed_advance (Nat.le_refl 1)
  | _ => cases h; exact hp

/-- A stave with slots, courses and a length. -/
structure HasRoom (v : Stave α) : Prop where
  slots : 1 ≤ v.slots
  courses : 1 ≤ v.courses
  length : (0.0 : α) < v.length

theorem reading_passed :
    Reading (α := α) fun v _ => v.HasRoom → v.WellFormed ∧ v.Passed where
  begin _ _ _ _ _ hroom :=
    ⟨⟨hroom.slots, hroom.courses, hroom.length, nofun, nofun⟩, nofun, nofun⟩
  line {_ v w _ _} hv h hroom := by
    have hgrid : w.toGrid = v.toGrid := (acts_writeLine h).extends.toGrid
    obtain ⟨hwell, hpassed⟩ := hv (by
      obtain ⟨hslots, hcourses, hlength⟩ := hroom
      rw [hgrid] at hslots hcourses hlength
      exact ⟨hslots, hcourses, hlength⟩)
    exact ⟨(acts_writeLine h).wellFormed hwell, passed_writeLine h hwell hpassed⟩

end

/-! ## Slots -/

/-- A slot lies on the stave: as it is padded, it stands between the ends of the stave. -/
def IsWithin (v : Stave Rat) (slot : Nat) : Prop :=
  v.x ≤ padded v.padding slot (v.slotX slot) ∧
    padded v.padding slot (v.slotX slot) ≤ v.x + v.length

instance (v : Stave Rat) (slot : Nat) : Decidable (v.IsWithin slot) :=
  inferInstanceAs (Decidable (_ ∧ _))

/-- The slots of a grid begin at its left end, and those up to the number of slots do not begin
behind its right end. -/
theorem slotX_bounds {g : Grid Rat} (hslots : 1 ≤ g.slots) (hlength : 0 < g.length) (slot : Nat) :
    g.x ≤ g.slotX slot ∧ (g.slotX slot ≤ g.x + g.length ↔ slot ≤ g.slots) := by
  have hlt {a b : Nat} : a < b → g.slotX a < g.slotX b := g.slotX_lt_slotX hslots hlength
  constructor
  · rcases Nat.eq_zero_or_pos slot with rfl | hpos
    · exact g.slotX_zero.ge
    · exact g.slotX_zero.ge.trans (hlt hpos).le
  · rw [← g.slotX_slots hslots]
    refine ⟨fun hle => Nat.not_lt.1 fun h => absurd (hlt h) (not_lt.2 hle), fun h => ?_⟩
    rcases Nat.eq_or_lt_of_le h with rfl | h
    · exact le_refl _
    · exact (hlt h).le

/-- What is known of a slot that something stands in, on a stave that may have been justified: it
lies on the stave unless the stave is justified and the slot is that of the cursor, and then it is
off the right end by the width of a slot. -/
structure Settles (v : Stave Rat) (slot : Nat) : Prop where
  left : v.x ≤ padded v.padding slot (v.slotX slot)
  within : v.IsWithin slot ↔ ¬ (v.padding.isSome = true ∧ slot = v.cursor)
  off : ¬ v.IsWithin slot → padded v.padding slot (v.slotX slot) =
    v.x + v.length + v.length / ((v.cursor - 1 : Nat) : Rat)

variable {v : Stave Rat}

theorem settles_of_unpadded (hv : v.WellFormed) (hpadding : v.padding = none) {slot : Nat}
    (hslot : slot ≤ v.slots) : v.Settles slot := by
  obtain ⟨hleft, hright⟩ := slotX_bounds hv.slots (zero_lt_length hv) slot
  have hx : padded v.padding slot (v.slotX slot) = v.slotX slot := by
    rw [hpadding]
    rfl
  have hwithin : v.IsWithin slot := by
    unfold IsWithin
    rw [hx]
    exact ⟨hleft, hright.2 hslot⟩
  refine ⟨hwithin.1, iff_of_true hwithin ?_, fun h => absurd hwithin h⟩
  simp [hpadding]

/-- On a justified stave the slots are those of the grid that ends with the last one written. -/
theorem settles_of_stretchesTo {w : Stave Rat} (hv : v.WellFormed) (hcursor : 1 < v.cursor)
    (hw : v.StretchesTo w) {slot : Nat} (hslot : slot ≤ v.cursor) : w.Settles slot := by
  have hgrid : w.toGrid = v.toGrid := by rw [hw.rest]
  have hc : w.cursor = v.cursor := by rw [hw.rest]
  have hn : 1 ≤ v.cursor - 1 := by omega
  have hx : padded w.padding slot (w.slotX slot) =
      (v.toGrid.withSlots (v.cursor - 1)).slotX slot := by
    rw [hgrid]
    exact hw.slots slot
  obtain ⟨hleft, hright⟩ := slotX_bounds (g := v.toGrid.withSlots (v.cursor - 1)) hn
    (zero_lt_length hv) slot
  have hwithin : w.IsWithin slot ↔ slot ≤ v.cursor - 1 := by
    unfold IsWithin
    rw [hx, hgrid]
    exact ⟨fun h => hright.1 h.2, fun h => ⟨hleft, hright.2 h⟩⟩
  refine ⟨?_, ?_, fun hoff => ?_⟩
  · rw [hx, hgrid]
    exact hleft
  · rw [hwithin, hc]
    constructor
    · rintro h ⟨-, rfl⟩
      omega
    · intro h
      have hne : slot ≠ v.cursor := fun e => h ⟨hw.padding, e⟩
      omega
  · obtain rfl : slot = v.cursor - 1 + 1 := by
      have := mt hwithin.2 hoff
      omega
    have hn₀ : ((v.cursor - 1 : Nat) : Rat) ≠ 0 := Nat.cast_ne_zero.2 (by omega)
    rw [hx, hgrid, hc]
    show v.x + ((v.cursor - 1 + 1 : Nat) : Rat) * (v.length / ((v.cursor - 1 : Nat) : Rat)) =
      v.x + v.length + v.length / ((v.cursor - 1 : Nat) : Rat)
    rw [Nat.cast_add_one]
    field_simp
    ring

/-- Justifying a stave settles its slots, whether it is given room or not. -/
theorem settles_justify (hv : v.WellFormed) (hplaced : v.IsPlaced) (hpadding : v.padding = none)
    {slot : Nat} (hslot : slot ≤ v.slots) (hreached : slot ≤ v.cursor) :
    v.justify.Settles slot := by
  by_cases hne : v.justify ≠ v
  · have hroom := (justify_ne_iff hpadding).1 hne
    exact settles_of_stretchesTo hv hroom.1 (stretchesTo_justify hv hplaced hpadding hroom) hreached
  · rw [not_not.1 hne]
    exact settles_of_unpadded hv hpadding hslot

/-- The marks on a justified stave are those that were written. -/
theorem mark_mem_of_mem_justify {x : Glyph Rat} (hx : x ∈ v.justify.glyphs) :
    ∃ y ∈ v.glyphs, x.mark = y.mark := by
  unfold justify at hx
  split at hx
  · exact ⟨x, hx, rfl⟩
  · obtain ⟨y, hy, rfl⟩ := List.mem_map.1 hx
    exact ⟨y, hy, mark_pad _ y⟩

/-- Of what stands beside a justified stave, everything trails. -/
theorem trails_of_not_isWithin (hpassed : v.Passed) (hpadding : v.padding = none) {x : Glyph Rat}
    (hx : x ∈ v.justify.glyphs) {slot : Nat} (hslot : slot ∈ x.mark.slots)
    (hsettles : v.justify.Settles slot) (hoff : ¬ v.justify.IsWithin slot) :
    x.mark.trails = true := by
  obtain ⟨hsome, hcursor⟩ := not_not.1 (mt hsettles.within.2 hoff)
  rw [cursor_justify] at hcursor
  have hne : v.justify ≠ v := by
    intro e
    rw [e, hpadding] at hsome
    cases hsome
  have hroom : 1 < v.cursor := ((justify_ne_iff hpadding).1 hne).1
  obtain ⟨y, hy, hmark⟩ := mark_mem_of_mem_justify hx
  rw [hmark] at hslot ⊢
  by_contra htrails
  have hbefore : slot ≤ v.cursor - 1 :=
    hpassed.marks y hy (Bool.not_eq_true _ ▸ htrails) slot hslot
  omega

end Stave

namespace Score

/-- Every stave of an unfinished score is as its lines have left it. -/
theorem written_of_stepAll {s : Score Rat} {lines : List NumberedLine}
    (h : (empty : Score Rat).stepAll lines = .ok s) :
    ∀ p ∈ s.document.pages, ∀ v ∈ p.staves,
      v.WellFormed ∧ v.Passed ∧ v.IsPlaced ∧ v.padding = none := by
  intro p hp v hv
  have hnil {Q : Page Rat → Prop} : ∀ p ∈ (empty : Score Rat).document.pages, Q p :=
    fun p hp => by cases hp
  have hwell : v.WellFormed := ((Page.invariant_wellFormed.stepAll h
    (everywhere_empty Layout.measured_initial_rat)).pages p hp).2 v hv
  have hpassed : v.Passed := by
    have hfollows := Stave.reading_passed.follows h
    have hpage := forall_right_of_forall₂ (List.Forall₂.flip hfollows)
      (fun _ _ (h : Page.Follows _ _ _) => forall_right_of_forall₂ (List.Forall₂.flip h)
        fun _ _ (h : Stave.HasRoom _ → _) => h) p hp v hv
    exact (hpage ⟨hwell.slots, hwell.courses, hwell.length⟩).2
  exact ⟨hwell, hpassed, Page.invariant_isPlaced.stepAll h hnil p hp v hv,
    Page.invariant_unpadded.stepAll h hnil p hp v hv⟩

/-- Every page of the document of a source is one that was written, or that one justified. -/
theorem exists_of_mem_finish {s : Score Rat} {p : Page Rat} (hp : p ∈ s.finish.pages) :
    p ∈ s.document.pages ∨ ∃ q ∈ s.document.pages, p = q.justify := by
  unfold finish at hp
  split at hp
  · obtain ⟨q, hq, rfl⟩ := List.mem_map.1 hp
    exact .inr ⟨q, hq, rfl⟩
  · exact .inl hp

/-- Where the glyphs of the document of a source stand, in exact arithmetic, on the staves that are
not written beyond their last slot. Final barlines apart, a glyph lies on its stave unless the stave
is justified and the glyph stands in the slot of the cursor. Then it was written by a line that
leaves the cursor where it is, and is off the right end by the width of a slot. -/
theorem isWithin_iff_of_parse {source : String} {d : Document Rat} (h : parse source = .ok d) :
    ∀ p ∈ d.pages, ∀ v ∈ p.staves,
      (∀ x ∈ v.glyphs, ∀ slot ∈ x.mark.slots, slot ≤ v.slots) →
      ∀ x ∈ v.glyphs, x.mark.isFinal = false → ∀ slot ∈ x.mark.slots,
        v.Settles slot ∧ (¬ v.IsWithin slot → x.mark.trails = true) := by
  obtain ⟨s, hs, rfl⟩ := parse_eq_ok.1 h
  have hwritten := written_of_stepAll hs
  intro p hp v hv hslots x hx _ slot hslot
  obtain hp | ⟨q, hq, rfl⟩ := exists_of_mem_finish hp
  · obtain ⟨hwell, -, -, hpadding⟩ := hwritten p hp v hv
    have hsettles : v.Settles slot :=
      Stave.settles_of_unpadded hwell hpadding (hslots x hx slot hslot)
    refine ⟨hsettles, fun hoff => absurd (hsettles.within.2 ?_) hoff⟩
    simp [hpadding]
  · obtain ⟨u, hu, rfl⟩ := List.mem_map.1 hv
    obtain ⟨hwell, hpassed, hplaced, hpadding⟩ := hwritten q hq u hu
    have hreached : slot ≤ u.cursor := by
      obtain ⟨y, hy, hmark⟩ := Stave.mark_mem_of_mem_justify hx
      exact (hwell.marks y hy).slots slot (hmark ▸ hslot)
    have hsettles : u.justify.Settles slot := by
      have hle := hslots x hx slot hslot
      rw [Stave.toGrid_justify] at hle
      exact Stave.settles_justify hwell hplaced hpadding hle hreached
    exact ⟨hsettles, Stave.trails_of_not_isWithin hpassed hpadding hx hslot hsettles⟩

/-- Five notes that fill a justified stave, and a short barline behind them. -/
theorem off_short_barline : ∃ d : Document Rat,
    parse "JUSTIFIED\nSLOTS 5\nP-1\nS-\n1-0\n1-0\n1-0\n1-0\n1-0\nSB-" = .ok d ∧
      ∃ p ∈ d.pages, ∃ v ∈ p.staves,
        (∀ x ∈ v.glyphs, ∀ slot ∈ x.mark.slots, slot ≤ v.slots) ∧
        ∃ x ∈ v.glyphs, x.mark.isFinal = false ∧ ∃ slot ∈ x.mark.slots, ¬ v.IsWithin slot := by
  have h : ((parse "JUSTIFIED\nSLOTS 5\nP-1\nS-\n1-0\n1-0\n1-0\n1-0\n1-0\nSB-").toOption.map
      fun d : Document Rat => decide (∃ p ∈ d.pages, ∃ v ∈ p.staves,
        (∀ x ∈ v.glyphs, ∀ slot ∈ x.mark.slots, slot ≤ v.slots) ∧
        ∃ x ∈ v.glyphs, x.mark.isFinal = false ∧ ∃ slot ∈ x.mark.slots, ¬ v.IsWithin slot)) =
      some true := by
    decide +kernel
  obtain ⟨d, hd, hoff⟩ := exists_of_toOption_map h
  exact ⟨d, hd, of_decide_eq_true hoff⟩

/-- The notes lie on the stave, the barline is off its end. -/
theorem isWithin_iff_short_barline : ∃ d : Document Rat,
    parse "JUSTIFIED\nSLOTS 5\nP-1\nS-\n1-0\n1-0\n1-0\n1-0\n1-0\nSB-" = .ok d ∧
      (∃ p ∈ d.pages, ∃ v ∈ p.staves,
        (∀ x ∈ v.glyphs, ∀ slot ∈ x.mark.slots, slot ≤ v.slots) ∧
        ∃ x ∈ v.glyphs, x.mark.isFinal = false ∧ ∃ slot ∈ x.mark.slots, ¬ v.IsWithin slot) ∧
      ∀ p ∈ d.pages, ∀ v ∈ p.staves,
        (∀ x ∈ v.glyphs, ∀ slot ∈ x.mark.slots, slot ≤ v.slots) →
        ∀ x ∈ v.glyphs, x.mark.isFinal = false → ∀ slot ∈ x.mark.slots,
          v.Settles slot ∧ (¬ v.IsWithin slot → x.mark.trails = true) := by
  obtain ⟨d, hd, hoff⟩ := off_short_barline
  exact ⟨d, hd, hoff, isWithin_iff_of_parse hd⟩

/-- The glyphs of a justified stave do not always lie on it, though they did before: this barline is
moved past the end. -/
theorem exists_not_isWithin : ¬ ∀ (source : String) (d : Document Rat), parse source = .ok d →
    (Line.tokenize source).any (·.line.justifies) = true →
    ∀ p ∈ d.pages, ∀ v ∈ p.staves,
      (∀ x ∈ v.glyphs, ∀ slot ∈ x.mark.slots, slot ≤ v.slots) →
      ∀ x ∈ v.glyphs, x.mark.isFinal = false → ∀ slot ∈ x.mark.slots, v.IsWithin slot := by
  intro hall
  obtain ⟨d, hd, p, hp, v, hv, hslots, x, hx, hfinal, slot, hslot, hoff⟩ := off_short_barline
  exact hoff (hall _ d hd (by decide +kernel) p hp v hv hslots x hx hfinal slot hslot)

end Score

end Tablature
