import Mathlib.Data.Set.Function
import Mathlib.Order.Interval.Set.Basic
import Tablature.Proofs.Stacking

/-!
# The line of each course

A stave has as many lines as courses, and each course has a line to itself: the courses of
an italian stave count up from the bottom line, those of a french one down from the top
line. To count down, the successor of the number of courses is needed. For the largest
number of courses that can be read there is none, and then the lines of a french stave
cannot be counted.

* `Orientation.IsLined`: each course has a line to itself;
* `isLined_iff`: the numbers of courses of which this is so;
* `Grid.courseOffset_bounds`, `Grid.injOn_courseOffset`: how high the lines lie;
* `Score.lined_of_parse`: the lines of the staves of a source.
-/

namespace Tablature

namespace Orientation

/-- Each course has a line to itself, and each line a course: on an italian stave a later course has
a higher line, on a french one a lower line, and there the course of a line is found as its line
is. No count has been too large on the way. -/
structure IsLined (o : Orientation) (courses : Nat) : Prop where
  counted : ∀ course ∈ Set.Icc 1 courses,
    o.linePosition? course courses = some (o.linePosition course courses)
  bijOn : Set.BijOn (o.linePosition · courses) (Set.Icc 1 courses) (Set.Icc 1 courses)
  increasing : o = .italian → StrictMonoOn (o.linePosition · courses) (Set.Icc 1 courses)
  decreasing : o = .french → StrictAntiOn (o.linePosition · courses) (Set.Icc 1 courses)
  inverse : o = .french → ∀ course ∈ Set.Icc 1 courses,
    o.linePosition (o.linePosition course courses) courses = course

variable {o : Orientation} {n : Nat}

theorem isLined_italian (n : Nat) : italian.IsLined n where
  counted _ _ := rfl
  bijOn := Set.bijOn_id _
  increasing _ := fun _ _ _ _ h => h
  decreasing := nofun
  inverse := nofun

theorem isLined_french (h : n < Count.max) : french.IsLined n := by
  have hmaps : Set.MapsTo (french.linePosition · n) (Set.Icc 1 n) (Set.Icc 1 n) :=
    fun course hc => linePosition_mem french hc.1 hc.2
  have hinverse : Set.LeftInvOn (french.linePosition · n) (french.linePosition · n)
      (Set.Icc 1 n) := by
    rintro course ⟨-, hc⟩
    simp only [linePosition_french]
    omega
  refine ⟨fun course _ => linePosition?_eq_some.2 ⟨fun _ => h, rfl⟩,
    Set.InvOn.bijOn ⟨hinverse, hinverse⟩ hmaps hmaps, nofun, fun _ a _ b hb hab => ?_,
    fun _ => hinverse⟩
  have hle : b ≤ n := hb.2
  simp only [linePosition_french]
  omega

/-- The largest number of courses has no successor to count down from. -/
theorem linePosition?_french_max (course : Nat) : french.linePosition? course Count.max = none := by
  rw [linePosition?, Count.succ?, if_neg (Nat.lt_irrefl _), Option.map_none]

/-- Only a french stave with the largest number of courses has courses without lines. -/
theorem isLined_iff (hmax : n ≤ Count.max) : o.IsLined n ↔ (o = .french → n < Count.max) := by
  constructor
  · rintro h rfl
    refine Nat.lt_of_le_of_ne hmax fun hn => ?_
    subst hn
    have hcounted := h.counted 1 (Set.left_mem_Icc.2 (by decide : 1 ≤ Count.max))
    rw [linePosition?_french_max] at hcounted
    cases hcounted
  · intro h
    cases o with
    | italian => exact isLined_italian n
    | french => exact isLined_french (h rfl)

end Orientation

namespace Grid

variable {g : Grid Rat}

/-- The line of a course lies between the bottom line and the top line. -/
theorem courseOffset_bounds (h : g.orientation.IsLined g.courses) (hspacing : 0 ≤ g.courseSpacing)
    {course : Nat} (hc : course ∈ Set.Icc 1 g.courses) :
    0 ≤ g.courseOffset course ∧ g.courseOffset course ≤ g.height := by
  have hle : g.orientation.linePosition course g.courses ≤ g.courses := (h.bijOn.mapsTo hc).2
  refine ⟨mul_nonneg (Nat.cast_nonneg _) hspacing, ?_⟩
  exact mul_le_mul_of_nonneg_right (Nat.cast_le.2 (Nat.sub_le_sub_right hle 1)) hspacing

/-- Different courses lie at different heights, unless there is no room between the lines. -/
theorem injOn_courseOffset (h : g.orientation.IsLined g.courses) (hspacing : 0 < g.courseSpacing) :
    Set.InjOn g.courseOffset (Set.Icc 1 g.courses) := by
  intro a ha b hb hab
  have hline : g.orientation.linePosition a g.courses - 1 =
      g.orientation.linePosition b g.courses - 1 :=
    Nat.cast_injective (R := Rat) (mul_right_cancel₀ hspacing.ne' hab)
  have ha₁ : 1 ≤ g.orientation.linePosition a g.courses := (h.bijOn.mapsTo ha).1
  have hb₁ : 1 ≤ g.orientation.linePosition b g.courses := (h.bijOn.mapsTo hb).1
  exact h.bijOn.injOn ha hb (by omega)

end Grid

namespace Score

/-- The staves of a source have no negative room between their lines. -/
theorem courseSpacing_nonneg_of_parse {source : String} {d : Document Rat}
    (h : parse source = .ok d) : ∀ p ∈ d.pages, ∀ v ∈ p.staves, 0 ≤ v.courseSpacing := by
  obtain ⟨s, hs, rfl⟩ := parse_eq_ok.1 h
  have hwritten : ∀ p ∈ s.document.pages, ∀ v ∈ p.staves, 0 ≤ v.courseSpacing := fun p hp v hv =>
    (((Page.invariant_measured.stepAll hs (everywhere_empty Layout.measured_initial_rat)).pages
      p hp).2 v hv).courseSpacing.nonneg
  refine forall_finish (Q := fun p => ∀ v ∈ p.staves, 0 ≤ v.courseSpacing) ?_ hwritten
  intro p hp v hv
  obtain ⟨u, hu, rfl⟩ := List.mem_map.1 hv
  rw [Stave.toGrid_justify]
  exact hp u hu

/-- The lines of the courses, for all numbers of courses that can be read. Each course has a line to
itself, of which its orientation decides whether it is counted from the bottom or from the top,
unless a french stave has the largest number of courses: there no line can be counted. In exact
arithmetic every course of a stave of a source lies between its bottom line and its top line, and
different courses at different heights, if there is any room between the lines; in the one case that
is left out the source cannot be drawn. -/
theorem lined_of_parse (o : Orientation) {n : Nat} (hmax : n ≤ Count.max) :
    (o.IsLined n ↔ (o = .french → n < Count.max)) ∧
    (o = .french → n = Count.max → ∀ course, o.linePosition? course n = none) ∧
    ∀ (source : String) (d : Document Rat), parse source = .ok d → ∀ p ∈ d.pages, ∀ v ∈ p.staves,
      v.orientation = o → v.courses = n →
        (o.IsLined n →
          (∀ course ∈ Set.Icc 1 n,
            0 ≤ v.courseOffset course ∧ v.courseOffset course ≤ v.height) ∧
          (0 < v.courseSpacing → Set.InjOn v.courseOffset (Set.Icc 1 n))) ∧
        (¬ o.IsLined n → d.render = .error .overflow) := by
  have hiff : o.IsLined n ↔ (o = .french → n < Count.max) := Orientation.isLined_iff hmax
  refine ⟨hiff, ?_, fun source d hd p hp v hv ho hn => ?_⟩
  · rintro rfl rfl course
    exact Orientation.linePosition?_french_max course
  · subst ho hn
    refine ⟨fun hlined => ⟨fun course hc => ?_, Grid.injOn_courseOffset hlined⟩, fun hnot => ?_⟩
    · exact Grid.courseOffset_bounds hlined (courseSpacing_nonneg_of_parse hd p hp v hv) hc
    · have hcount : ¬ v.isCountable = true := fun h => hnot (hiff.2 (Grid.isCountable_iff.1 h))
      refine if_neg fun hall => hcount ?_
      exact List.all_eq_true.1 (List.all_eq_true.1 hall p hp) v hv

/-- The staves of a source as they are divided, where these can be computed. -/
theorem exists_stave_of_courses (source : String) (o : Orientation) (n : Nat)
    (h : (parse source).toOption.map (fun d : Document Rat =>
      d.pages.map fun p => p.staves.map fun v => (v.orientation, v.courses)) = some [[(o, n)]]) :
    ∃ d : Document Rat, parse source = .ok d ∧
      ∃ p ∈ d.pages, ∃ v ∈ p.staves, v.orientation = o ∧ v.courses = n := by
  obtain ⟨d, hd, hv⟩ := exists_of_toOption_map h
  obtain ⟨p, hpages, hp⟩ := List.map_eq_singleton_iff.1 hv
  obtain ⟨v, hstaves, hv⟩ := List.map_eq_singleton_iff.1 hp
  exact ⟨d, hd, p, by simp [hpages], v, by simp [hstaves], Prod.mk.inj hv⟩

/-- A french stave with one course less than can be read: its courses still have lines. -/
theorem lined_of_parse_below_max :
    Count.max - 1 ≤ Count.max ∧ Orientation.french.IsLined (Count.max - 1) ∧
      ¬ Orientation.french.IsLined Count.max ∧ Orientation.italian.IsLined Count.max ∧
      ∃ d : Document Rat, parse "FRENCH\nNUMBEROFCOURSES 18446744073709551614\nP-1\nS-" = .ok d ∧
        ∃ p ∈ d.pages, ∃ v ∈ p.staves, v.courses = Count.max - 1 ∧
          ∀ course ∈ Set.Icc 1 (Count.max - 1),
            0 ≤ v.courseOffset course ∧ v.courseOffset course ≤ v.height := by
  have hle : Count.max - 1 ≤ Count.max := Nat.sub_le _ _
  have hlt : Count.max - 1 < Count.max := by decide
  obtain ⟨hfrench, -, hstaves⟩ := lined_of_parse .french hle
  obtain ⟨d, hd, p, hp, v, hv, ho, hn⟩ := exists_stave_of_courses
    "FRENCH\nNUMBEROFCOURSES 18446744073709551614\nP-1\nS-" .french (Count.max - 1)
    (by decide +kernel)
  have hlined : Orientation.french.IsLined (Count.max - 1) := hfrench.2 fun _ => hlt
  refine ⟨hle, hlined, fun h => ?_, ?_, d, hd, p, hp, v, hv, hn, ?_⟩
  · exact absurd ((lined_of_parse .french (Nat.le_refl _)).1.1 h rfl) (Nat.lt_irrefl _)
  · exact (lined_of_parse .italian (Nat.le_refl _)).1.2 nofun
  · exact ((hstaves _ d hd p hp v hv ho hn).1 hlined).1

/-- Not every course has a line that can be counted: with the largest number of courses those of a
french stave have none, and a source that writes notes on them stops there. -/
theorem exists_line_uncounted : ∃ (o : Orientation) (course n : Nat),
    (1 ≤ course ∧ course ≤ n ∧ n ≤ Count.max) ∧ o.linePosition? course n = none ∧
      (parse "FRENCH\nNUMBEROFCOURSES 18446744073709551615\nP-1\nS-\n1-0 18446744073709551615-0" :
        Except (Stop Rat) (Document Rat)) = .error .overflow :=
  ⟨.french, 1, Count.max, by decide, Orientation.linePosition?_french_max 1, by decide +kernel⟩

end Score

end Tablature
