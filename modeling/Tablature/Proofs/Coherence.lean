import Tablature.Proofs.Growth

/-!
# Coordinates of a finished document

The coordinates in a finished document follow from the measures of its pages, the
slots and courses of its glyphs, and the style that each glyph carries, whatever
lines wrote them and in whatever order.

* `Stave.StandsOn`: a stave stands below those before it on its page;
* `Glyph.StandsOn`: a glyph stands in its slot, moved by the padding of its stave
  if it has one;
* `standsOn_place`, `standsOn_pad`: placing and padding give these coordinates;
* `standsOn_of_parse`: every stave and every glyph of a document has them.

No law of arithmetic is used: the expressions are those that are evaluated.
-/

namespace Tablature

variable {α : Type} [Scalar α]

/-- Where something stands that stands at `x` in slot `slot` before the stave is padded. -/
def padded (padding : Option α) (slot : Nat) (x : α) : α :=
  padding.elim x fun p => x + Scalar.count slot * p

/-- The coordinates of a glyph on a grid with some padding. The final barline is not padded;
the ends of a slur are padded each by its own slot, and the slur bends in the middle between
them. -/
def Glyph.StandsOn (g : Grid α) (padding : Option α) : Glyph α → Prop
  | .note n =>
    n.x = padded padding n.slot (g.slotX n.slot) ∧
      n.y = g.courseY n.course - Scalar.floor (n.size / 3.0)
  | .tick t =>
    t.x = padded padding t.slot (g.slotX t.slot + 2.0 * t.bodyRadius) ∧
      t.y = g.y + g.height + g.courseSpacing
  | .barline b =>
    b.x = (if b.kind = .final then g.slotX g.slots
      else padded padding b.slot (g.slotX b.slot)) ∧
    b.y = g.y ∧ b.height = g.height ∧ b.shortY = g.y + g.courseSpacing ∧
      b.shortHeight = Scalar.count (g.courses - 3) * g.courseSpacing
  | .barberpole b =>
    let (first, last) := b.range.getD (1, g.courses)
    b.x = padded padding b.slot (g.slotX b.slot) ∧ b.y = g.y ∧ b.staveHeight = g.height ∧
      b.courseSpacing = g.courseSpacing ∧
      b.lower = Scalar.lesser (g.courseOffset first) (g.courseOffset last) ∧
      b.upper = Scalar.greater (g.courseOffset first) (g.courseOffset last)
  | .timeSignature t =>
    t.x = padded padding t.slot (g.slotX t.slot) ∧ t.size = g.height / 2.0 ∧
      match t.meter with
      | .fraction _ _ => t.y = g.y + t.size / 5.0 ∧ t.topY = g.y + g.height / 2.0 + t.size / 5.0
      | _ => t.y = g.y + g.height / 2.0 - t.size / 3.0 ∧ t.topY = t.y
  | .semicircle s =>
    s.x = padded padding s.slot (g.slotX s.slot + s.radius / 2.0) ∧
      match s.side with
      | .over => s.y = g.courseY s.course + g.courseSpacing * 0.8 - s.radius
      | .under => s.y = g.courseY s.course - (g.courseSpacing * 0.8 - s.radius)
  | .slur s =>
    s.x₁ = padded padding s.start.slot (g.slotX s.start.slot) ∧
      s.x₃ = padded padding s.stop.slot (g.slotX s.stop.slot) ∧ s.x₂ = (s.x₁ + s.x₃) / 2.0 ∧
      match g.orientation with
      | .italian =>
        s.y₁ = g.courseY s.start.course + g.courseSpacing * 0.75 ∧
          s.y₃ = g.courseY s.stop.course + g.courseSpacing * 0.75 ∧
          s.y₂ = Scalar.greater s.y₁ s.y₃ + 2.0 * g.courseSpacing
      | .french =>
        s.y₁ = g.courseY s.start.course + g.courseSpacing * 0.75 - 1.5 * g.courseSpacing ∧
          s.y₃ = g.courseY s.stop.course + g.courseSpacing * 0.75 - 1.5 * g.courseSpacing ∧
          s.y₂ = Scalar.lesser s.y₁ s.y₃ - 2.0 * g.courseSpacing
  | .sectionSign s =>
    s.x = padded padding s.slot (g.slotX s.slot) ∧ s.y = g.y + g.height * 1.5
  | .alfabeto a =>
    a.x = padded padding a.slot (g.slotX a.slot) ∧ a.y = g.y + g.height / 2.0 - a.size / 3.0
  | .strum s => s.x = padded padding s.slot (g.slotX s.slot) ∧ s.y = g.y

/-- The place of the stave with `i` staves above it on a page, and of everything on it. -/
structure Stave.StandsOn (p : Page α) (i : Nat) (v : Stave α) : Prop where
  x : v.x = p.leftMargin
  y : v.y = p.height - p.topMargin - Scalar.count i * (v.height + p.staveSeparation)
  length : v.length = p.width - p.leftMargin - p.rightMargin
  glyphs : ∀ g ∈ v.glyphs, g.StandsOn v.toGrid v.padding

/-! ## Glyphs -/

/-- A mark is placed where it stands without padding. -/
theorem Mark.standsOn_place (g : Grid α) (l : Layout α) (m : Mark) :
    (m.place g l).StandsOn g none := by
  cases m with
  | barline kind slot label =>
    refine ⟨?_, rfl, rfl, rfl, rfl⟩
    cases kind <;> rfl
  | timeSignature slot meter =>
    cases meter <;> exact ⟨rfl, rfl, rfl, rfl⟩
  | semicircle side slot course => cases side <;> exact ⟨rfl, rfl⟩
  | slur start stop =>
    obtain ⟨x, y, length, slots, courses, spacing, orientation⟩ := g
    cases orientation <;> exact ⟨rfl, rfl, rfl, rfl, rfl, rfl⟩
  | barberpole slot range => exact ⟨rfl, rfl, rfl, rfl, rfl, rfl⟩
  | _ => exact ⟨rfl, rfl⟩

/-- Padding moves what stands without padding to where it stands with padding. -/
theorem Glyph.standsOn_pad {g : Grid α} {x : Glyph α} (p : α) (h : x.StandsOn g none) :
    (x.pad p).StandsOn g (some p) := by
  cases x with
  | barline b =>
    obtain ⟨hx, h⟩ := h
    obtain ⟨kind, _⟩ := b
    cases kind with
    | final => exact ⟨hx, h⟩
    | _ => exact ⟨congrArg (· + _) hx, h⟩
  | slur s =>
    obtain ⟨h₁, h₃, -, h⟩ := h
    exact ⟨congrArg (· + _) h₁, congrArg (· + _) h₃, rfl, h⟩
  | _ => exact ⟨congrArg (· + _) h.1, h.2⟩

namespace Stave

/-- Acts leave the grid alone, so what holds of every mark that is placed on it holds of every
glyph. -/
theorem forall_glyphs_of_act {P : Grid α → Glyph α → Prop}
    (hP : ∀ (g : Grid α) (l : Layout α) (m : Mark), P g (m.place g l)) {l : Layout α}
    {v w : Stave α} (h : Act l v w) (hv : ∀ x ∈ v.glyphs, P v.toGrid x) :
    ∀ x ∈ w.glyphs, P w.toGrid x := by
  have hplace (u : Stave α) (m : Mark) (hu : ∀ x ∈ u.glyphs, P u.toGrid x) :
      ∀ x ∈ (u.place l m).glyphs, P u.toGrid x := by
    intro x hx
    rcases List.mem_append.1 hx with hx | hx
    · exact hu x hx
    · rw [List.mem_singleton.1 hx]; exact hP _ l m
  cases h with
  | place _ => exact hplace v _ hv
  | advance _ | beginSlur _ | dropSlur => exact hv
  | endSlur _ h =>
    obtain ⟨start, -, rfl⟩ := Option.map_eq_some_iff.1 h
    exact hplace { v with openSlur := none } _ hv

/-- Justifying pads the stave and all its glyphs, or nothing. -/
theorem standsOn_justify {v : Stave α} (hp : v.padding = none)
    (hv : ∀ g ∈ v.glyphs, g.StandsOn v.toGrid none) :
    ∀ g ∈ v.justify.glyphs, g.StandsOn v.justify.toGrid v.justify.padding := by
  unfold justify
  split
  · rw [hp]; exact hv
  · intro g hg
    obtain ⟨x, hx, rfl⟩ := List.mem_map.1 hg
    exact Glyph.standsOn_pad _ (hv x hx)

end Stave

/-! ## Staves -/

namespace Page

/-- The staves of the page stand where those before them leave room. -/
def Stacked (p : Page α) : Prop :=
  ∀ i g, (p.staves.map Stave.toGrid)[i]? = some g →
    g.x = p.leftMargin ∧ g.y = p.staveY i g.height ∧ g.length = p.staveLength

/-- A stave is appended where the others leave room. -/
theorem stacked_append {p q : Page α} {v : Stave α} (hp : p.Stacked) (h : p.append v = .ok q) :
    q.Stacked := by
  obtain ⟨-, rfl⟩ := Page.append_eq_ok.1 h
  intro i g hg
  simp only [List.map_append, List.map_cons, List.map_nil] at hg
  obtain hg | ⟨rfl, rfl⟩ := getElem?_concat_eq_some hg
  · exact hp i g hg
  · rw [List.length_map]
    exact ⟨rfl, rfl, rfl⟩

theorem invariant_stacked : Invariant (α := α) Stacked where
  blank _ _ _ := by intro i g hg; cases hg
  append hp h := stacked_append hp h
  setTitle _ _ hp := hp
  setComposer _ _ hp := hp
  act hp hv h := by
    unfold Stacked
    rw [map_setCurrentStave hv (Stave.extends_of_act h).toGrid]
    exact hp

theorem invariant_standsOn :
    Invariant (α := α) fun p => ∀ v ∈ p.staves, ∀ g ∈ v.glyphs, g.StandsOn v.toGrid none :=
  .ofStaves (fun _ _ _ _ _ g hg => by cases hg)
    (Stave.forall_glyphs_of_act (P := fun g x => x.StandsOn g none)
      fun g l m => m.standsOn_place g l)

/-- A page on which everything stands in its place without padding stands so when it is
justified. -/
theorem standsOn_justify {p : Page α} (hs : p.Stacked) (hp : ∀ v ∈ p.staves, v.padding = none)
    (hg : ∀ v ∈ p.staves, ∀ g ∈ v.glyphs, g.StandsOn v.toGrid none) {i : Nat} {v : Stave α}
    (hv : p.justify.staves[i]? = some v) : v.StandsOn p.justify i := by
  simp only [justify, List.getElem?_map, Option.map_eq_some_iff] at hv
  obtain ⟨u, hu, rfl⟩ := hv
  have hm := List.mem_of_getElem? hu
  obtain ⟨hx, hy, hl⟩ := hs i u.toGrid (by rw [List.getElem?_map, hu]; rfl)
  have e : u.justify.toGrid = u.toGrid := Stave.toGrid_justify u
  refine ⟨?_, ?_, ?_, Stave.standsOn_justify (hp u hm) (hg u hm)⟩
  · rw [e]; exact hx
  · rw [e]; exact hy
  · rw [e]; exact hl

/-- The same of a page that is not justified. -/
theorem standsOn_of_unpadded {p : Page α} (hs : p.Stacked) (hp : ∀ v ∈ p.staves, v.padding = none)
    (hg : ∀ v ∈ p.staves, ∀ g ∈ v.glyphs, g.StandsOn v.toGrid none) {i : Nat} {v : Stave α}
    (hv : p.staves[i]? = some v) : v.StandsOn p i := by
  have hm := List.mem_of_getElem? hv
  obtain ⟨hx, hy, hl⟩ := hs i v.toGrid (by rw [List.getElem?_map, hv]; rfl)
  refine ⟨hx, hy, hl, ?_⟩
  rw [hp v hm]
  exact hg v hm

end Page

/-- In the document of a source every stave stands below those before it on its page, and
every glyph in its slot and on its course, moved by the padding if its stave is padded. -/
theorem Score.standsOn_of_parse {source : String} {d : Document α} (h : parse source = .ok d) :
    ∀ p ∈ d.pages, ∀ (i : Nat) (v : Stave α), p.staves[i]? = some v → v.StandsOn p i := by
  obtain ⟨s, hs, rfl⟩ := parse_eq_ok.1 h
  have hnil {Q : Page α → Prop} : ∀ p ∈ (empty : Score α).document.pages, Q p :=
    fun p hp => by cases hp
  have h₁ := Page.invariant_stacked.stepAll hs hnil
  have h₂ := Page.invariant_unpadded.stepAll hs hnil
  have h₃ := Page.invariant_standsOn.stepAll hs hnil
  intro p hp i v hv
  unfold finish at hp
  split at hp
  · obtain ⟨q, hq, rfl⟩ := List.mem_map.1 hp
    exact Page.standsOn_justify (h₁ q hq) (h₂ q hq) (h₃ q hq) hv
  · exact Page.standsOn_of_unpadded (h₁ p hp) (h₂ p hp) (h₃ p hp) hv

/-- A stave that is justified, with a slur over two of its lines. -/
theorem Score.standsOn_justified_slur : ∃ d : Document Float,
    parse "JUSTIFIED\nSLOTS 8\nP-1\nS-\nT-C\nT-3-4\nC 1-0 2-[\nQ 2-]\nEB-" = .ok d ∧
      (d.pages.flatMap Page.staves).map (fun v => (v.glyphs.length, v.padding.isSome)) = [(7, true)] ∧
      ∀ p ∈ d.pages, ∀ (i : Nat) (v : Stave Float), p.staves[i]? = some v → v.StandsOn p i := by
  have h : ((parse "JUSTIFIED\nSLOTS 8\nP-1\nS-\nT-C\nT-3-4\nC 1-0 2-[\nQ 2-]\nEB-").toOption.map
      fun d : Document Float => (d.pages.flatMap Page.staves).map fun v =>
        (v.glyphs.length, v.padding.isSome)) = some [(7, true)] := by
    decide +kernel
  obtain ⟨d, hd, hv⟩ := exists_of_toOption_map h
  exact ⟨d, hd, hv, standsOn_of_parse hd⟩

end Tablature
