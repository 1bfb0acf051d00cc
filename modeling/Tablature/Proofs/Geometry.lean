import Tablature.Proofs.Lockstep

/-!
# Geometry stays with its stave

A page and a stave take their measures from the layout when they are begun, a title
and a composer take theirs when they are written, and a chord letter its size. No
other line takes any geometry from the layout: a mark stands where the grid of its
stave puts it. So between such lines it does not matter which directives for the
geometry are given, or in which order.

* `Line.setsGeometry`: the directives for the geometry;
* `Layout.markStyles`: what all other directives set;
* `suffices_markStyles`: marks need no more of a layout than that;
* `geometry_stays_out`: two runs that differ in directives for the geometry.
-/

namespace Tablature

/-! ## Directives for the geometry -/

/-- Whether the length is not the size or the spacing of a mark. -/
def LengthSetting.isGeometry : LengthSetting → Bool
  | barlineSpacing | barberpoleSpacing | fretSize | barlineSize => false
  | _ => true

/-- Whether the font is not that of a mark. -/
def FaceSetting.isGeometry : FaceSetting → Bool
  | fret | barline => false
  | _ => true

def Setting.isGeometry : Setting → Bool
  | length s => s.isGeometry
  | count _ => true
  | face s => s.isGeometry

namespace Line

/-- Whether the line is for the measures of pages and staves, the tuning, the orientation, or the
style of headings and of the tuning beside the stave. -/
def isGeometry : Line → Bool
  | setting s _ => s.isGeometry
  | courses _ | flag .showCourses | flag .french => true
  | _ => false

/-- Whether the line takes geometry from the layout. -/
def takesGeometry : Line → Bool
  | page _ | stave | title _ | composer _ | alfabeto _ => true
  | _ => false

/-- Whether the line is a directive for the geometry whose argument can be read. -/
def setsGeometry (α : Type) [Scalar α] (line : Line) : Bool :=
  line.isGeometry && (line.change? : Except Refusal (Layout.Change α)).toOption.isSome

end Line

variable {α : Type} [Scalar α]

namespace Layout

/-- What marks take from a layout, chord letters aside, and whether staves are justified. -/
def markStyles (l : Layout α) : Layout α :=
  { initial with
    barlineSpacing := l.barlineSpacing
    barberpoleSpacing := l.barberpoleSpacing
    barlineStyle := l.barlineStyle
    tickRadius := l.tickRadius
    fretStyle := l.fretStyle
    sectionSize := l.sectionSize
    fretMap := l.fretMap
    mapFrets := l.mapFrets
    justified := l.justified }

theorem markStyles_change (l : Layout α) (c : Change α) :
    (l.change c).markStyles = (l.markStyles.change c).markStyles := by
  cases c with
  | length s v => cases s <;> rfl
  | count s n => cases s <;> rfl
  | face s face => cases s <;> rfl
  | flag flag => cases flag <;> rfl
  | _ => rfl

/-- Lines that take no geometry from the layout take their styles from it. -/
theorem suffices_markStyles :
    Suffices (α := α) markStyles fun line => line.takesGeometry = false where
  change := markStyles_change
  styled l line m hk hw := by
    cases m with
    | alfabeto slot chord =>
      cases line with
      | alfabeto _ => cases hk
      | _ => exact hw.elim
    | _ => rfl
  page _ _ hk := by cases hk
  title _ _ _ hk := by cases hk
  composer _ _ _ hk := by cases hk
  stave _ hk := by cases hk

/-- Directives for the geometry set nothing else. -/
theorem markStyles_of_isGeometry {line : Line} (h : line.isGeometry = true) {c : Change α}
    (hc : line.change? = .ok c) (l : Layout α) : (l.change c).markStyles = l.markStyles := by
  cases Line.tells_of_change? hc with
  | @length s => cases s <;> first | rfl | cases h
  | @count s => cases s <;> rfl
  | @face s => cases s <;> first | rfl | cases h
  | tuning _ => rfl
  | flag f => cases f <;> first | rfl | cases h
  | frets _ => cases h
  | emptyMap _ => cases h
  | content _ => rfl

end Layout

/-- Lines that take no geometry do not see a directive for it. -/
theorem Line.isUnseen_of_setsGeometry {line : Line} (h : line.setsGeometry α = true) :
    line.IsUnseen (fun l l' : Layout α => l.markStyles = l'.markStyles) ∧
      line.IsUnseen (flip fun l l' : Layout α => l.markStyles = l'.markStyles) := by
  obtain ⟨hline, hread⟩ := Bool.and_eq_true_iff.1 h
  have hoff : line.isOffPage = true := by
    cases line <;> first | rfl | cases hline
  exact isUnseen_of_readable hoff hread (Layout.markStyles_of_isGeometry hline)

namespace Score

theorem SameView.finish_eq {s t : Score α} (h : s.SameView Layout.markStyles t) :
    s.finish = t.finish := by
  have hjustified : s.layout.justified = t.layout.justified := by
    have h : s.layout.markStyles.justified = t.layout.markStyles.justified := by rw [h.1]
    exact h
  unfold finish
  rw [hjustified, h.2]

/-- From any score, two runs of lines that take no geometry from the layout, and differ in nothing
but directives for the geometry that can be read, write the same document and fail at the same
fault; and if they are fed line by line, they leave the same document and find the same faults. -/
theorem geometry_stays_out (s : Score α) {ms ns : List NumberedLine}
    (hms : ∀ m ∈ ms, m.line.takesGeometry = false)
    (h : (ms.map NumberedLine.line).filter (!·.setsGeometry α) =
      (ns.map NumberedLine.line).filter (!·.setsGeometry α)) :
    Agree Stop.Alike (fun t u => t.document = u.document ∧ t.finish = u.finish)
        (s.stepAll ms) (s.stepAll ns) ∧
      (s.feedAll ms).document = (s.feedAll ns).document ∧
      (s.feedAll ms).finish = (s.feedAll ns).finish ∧
      (s.faults ms).map Stop.unnumbered = (s.faults ns).map Stop.unnumbered := by
  have hbut := sameBut_of_filter
    (fun line hline => Line.isUnseen_of_setsGeometry (α := α) (by simpa using hline)) h
  have hself : s.SameView Layout.markStyles s := ⟨rfl, rfl⟩
  obtain ⟨hfed, hfaults⟩ := Layout.suffices_markStyles.sameView_feedAll hms hbut hself
  refine ⟨?_, hfed.2, hfed.finish_eq, hfaults⟩
  exact (Layout.suffices_markStyles.agree_stepAll hms hbut hself).imp_ok
    fun _ _ h => ⟨h.2, h.finish_eq⟩

/-- Directives before, between and behind notes, two of which are refused, on a stave where a slur
is open. -/
theorem geometry_stays_out_of_notes :
    let s : Score Float := empty.feedAll (Line.tokenize "P-1\nS-\n2-[")
    let ms := Line.tokenize
      "FRENCH\n1-0 3-]\nCOURSESPACING 20\nB-\nCOURSES E4 B3-B3\n5-3\n7-0\nSLOTS x\nBP-1-2"
    let ns := Line.tokenize
      "1-0 3-]\nB-\n5-3\nPAGEWIDTH 10\n7-0\nFRENCH\nSLOTS x\nCOURSESPACING 20\nBP-1-2\nTITLESIZE 3"
    (∀ m ∈ ms, m.line.takesGeometry = false) ∧
      (ms.map NumberedLine.line).filter (!·.setsGeometry Float) =
        (ns.map NumberedLine.line).filter (!·.setsGeometry Float) ∧
      s.faults ms =
        [.fault (.courseOutOfRange 7 7 5), .fault (.malformedDirective 8 "SLOTS" (.notWhole "x"))] ∧
      s.faults ns =
        [.fault (.courseOutOfRange 5 7 5), .fault (.malformedDirective 7 "SLOTS" (.notWhole "x"))] ∧
      Agree Stop.Alike (fun t u => t.document = u.document ∧ t.finish = u.finish)
        (s.stepAll ms) (s.stepAll ns) ∧
      (s.feedAll ms).document = (s.feedAll ns).document ∧
      (s.feedAll ms).finish = (s.feedAll ns).finish ∧
      (s.faults ms).map Stop.unnumbered = (s.faults ns).map Stop.unnumbered := by
  intro s ms ns
  have hms : ∀ m ∈ ms, m.line.takesGeometry = false := by decide +kernel
  have h : (ms.map NumberedLine.line).filter (!·.setsGeometry Float) =
      (ns.map NumberedLine.line).filter (!·.setsGeometry Float) := by decide +kernel
  exact ⟨hms, h, by decide +kernel, by decide +kernel, geometry_stays_out s hms h⟩

end Score

end Tablature
