import Tablature.Proofs.Coherence
import Tablature.Proofs.WellFormed
import Tablature.Proofs.Worth

/-!
# The boxes of a barberpole

A barberpole has a box in each gap between its courses. They are drawn by a loop that adds
the spacing of the courses to an offset, from the lower course on, as long as the offset is
below the upper course less an epsilon. Each sum is rounded, so the offsets drift away from
the lines, and the last one may fall short of the upper course.

* `Barberpole.Passes`, `Barberpole.offsetAfter`: the loop, and the offset after so many steps;
* `Spans.step`, `Spans.exists_near`: the error that is added by a step, and that of all steps;
* `Barberpole.Fills`: each gap has a box, near its lower line, and there is at most one more;
* `Score.fills_of_parse`: the barberpoles of a source fill the gaps between their courses.
-/

namespace Tablature

open Double

/-! ## The loop -/

namespace Barberpole

section

variable {α : Type} [Scalar α] {spacing bound offset : α}

/-- The loop that goes from an offset to the next, as long as it is below the bound, passes these
offsets and ends. -/
inductive Passes (spacing bound : α) : α → List α → Prop where
  | stop {offset : α} : ¬ offset < bound → Passes spacing bound offset []
  | step {offset : α} {rest : List α} : offset < bound →
    Passes spacing bound (offset + spacing) rest → Passes spacing bound offset (offset :: rest)

/-- A loop that ends is followed to its end. -/
theorem Passes.offsets_eq {passed : List α} (h : Passes spacing bound offset passed) {limit : Nat}
    (hlimit : passed.length ≤ limit) : offsets spacing bound limit offset = passed := by
  induction h generalizing limit with
  | stop hstop =>
    cases limit with
    | zero => rfl
    | succ limit => exact if_neg hstop
  | step hlt _ ih =>
    cases limit with
    | zero => cases hlimit
    | succ limit =>
      rw [offsets, if_pos hlt, ih (Nat.le_of_succ_le_succ hlimit)]

/-- The offset after so many steps. -/
def offsetAfter (spacing offset : α) : Nat → α
  | 0 => offset
  | n + 1 => offsetAfter spacing offset n + spacing

theorem offsetAfter_add (spacing offset : α) (n : Nat) :
    offsetAfter spacing (offset + spacing) n = offsetAfter spacing offset (n + 1) := by
  induction n with
  | zero => rfl
  | succ n ih => exact congrArg (· + spacing) ih

/-- The loop ends with the first offset that is not below the bound. -/
theorem passes_map_offsetAfter {n : Nat}
    (hlt : ∀ k < n, offsetAfter spacing offset k < bound)
    (hstop : ¬ offsetAfter spacing offset n < bound) :
    Passes spacing bound offset ((List.range n).map (offsetAfter spacing offset)) := by
  induction n generalizing offset with
  | zero => exact .stop hstop
  | succ n ih =>
    rw [List.range_succ_eq_map, List.map_cons, List.map_map]
    refine .step (hlt 0 n.succ_pos) ?_
    have hrest : offsetAfter spacing offset ∘ Nat.succ = offsetAfter spacing (offset + spacing) :=
      funext fun k => (offsetAfter_add spacing offset k).symm
    rw [hrest]
    refine ih (fun k hk => ?_) ?_
    · rw [offsetAfter_add]
      exact hlt (k + 1) (Nat.succ_lt_succ hk)
    · rw [offsetAfter_add]
      exact hstop

end

end Barberpole

/-! ## Drift -/

/-- The error of one rounding, among numbers that are not too large for their spacing. -/
theorem IsRounded.near {x r s : Rat} (h : IsRounded x r) (hs : 2 ^ (-51 : Int) ≤ s)
    (hx : |x| ≤ 2 ^ 25 * s) : |r - x| ≤ s / 2 ^ 27 := by
  have hsmall : (2 : Rat) ^ (-1075 : Int) ≤ s / 2 ^ 28 := by
    rw [le_div_iff₀ (by positivity)]
    calc (2 : Rat) ^ (-1075 : Int) * 2 ^ 28 = 2 ^ (-1047 : Int) := by
          rw [← zpow_natCast, ← zpow_add₀ two_ne_zero]
          rfl
      _ ≤ 2 ^ (-51 : Int) := zpow_le_zpow_right₀ one_le_two (by decide)
      _ ≤ s := hs
  calc |r - x| ≤ |x| / 2 ^ 53 + 2 ^ (-1075 : Int) := h.abs_sub_le
    _ ≤ 2 ^ 25 * s / 2 ^ 53 + s / 2 ^ 28 := by gcongr
    _ = s / 2 ^ 27 := by ring

section

variable {s q r : Rat} {m n : Nat}

/-- A line lies so many spacings above the lowest, but for one rounding. -/
theorem near_line (h : IsRounded (n * s) r) (hs : 2 ^ (-51 : Int) ≤ s) (hn : n ≤ 2 ^ 24) :
    |r - n * s| ≤ s / 2 ^ 27 := by
  have hpos : 0 < s := lt_of_lt_of_le (by positivity) hs
  have hn' : (n : Rat) ≤ 2 ^ 25 := by exact_mod_cast hn.trans (by decide)
  refine h.near hs ?_
  rw [abs_of_nonneg (by positivity)]
  gcongr

/-- Lines are in order, though they are rounded. -/
theorem line_lt_line (h : IsRounded (m * s) q) (h' : IsRounded (n * s) r)
    (hs : 2 ^ (-51 : Int) ≤ s) (hmn : m < n) (hn : n ≤ 2 ^ 24) : q < r := by
  have hpos : 0 < s := lt_of_lt_of_le (by positivity) hs
  have hq := (abs_le.1 (near_line h hs (by omega))).2
  have hr := (abs_le.1 (near_line h' hs hn)).1
  have hle : ((m : Rat) + 1) * s ≤ n * s := by
    gcongr
    exact_mod_cast hmn
  linarith

end

/-- The double is the place of a line, so many spacings above the lowest. -/
structure IsLine (s : Rat) (n : Nat) (v : Float) (r : Rat) : Prop where
  worth : IsWorth v r
  rounded : IsRounded (n * s) r

/-- The lines of a stave of finite height. -/
theorem exists_isLine {spacing : Float} {s : Rat} (hspacing : IsWorth spacing s)
    (hs : 2 ^ (-51 : Int) ≤ s) {n : Nat} (hn : n ≤ 2 ^ 24)
    (hheight : (Scalar.count n * spacing).isFinite = true) {i : Nat} (hi : i ≤ n) :
    ∃ r, IsLine s i (Scalar.count i * spacing) r := by
  have hpos : 0 < s := lt_of_lt_of_le (by positivity) hs
  have hround (m : Nat) (hm : m ≤ n) : Rounds (m * s) (Scalar.count m * spacing) :=
    rounds_mul (isWorth_ofNat (by omega)) hspacing
  obtain ⟨top, htop⟩ : ∃ r, IsWorth (Scalar.count n * spacing) r := ⟨_, hheight, rfl⟩
  have hrounded := (hround n le_rfl).isRounded htop
  rcases hi.lt_or_eq with hlt | rfl
  · obtain ⟨r, hr, hworth | ⟨hlarge, -⟩⟩ := (hround i hi).isWorth_or (by positivity)
    · exact ⟨r, hworth, hr⟩
    · have hbelow := line_lt_line hr hrounded hs hlt hn
      exact absurd (hlarge.trans_lt hbelow) (not_lt.2 ((le_abs_self top).trans htop.abs_lt.le))
  · exact ⟨top, htop, hrounded⟩

/-- What the loop of a barberpole is given: the spacing, and the places of two lines of the stave,
one above the other or the same. -/
structure Spans (spacing lower upper : Float) (s l u : Rat) (j i : Nat) : Prop where
  worth : IsWorth spacing s
  least : 2 ^ (-51 : Int) ≤ s
  lowerLine : IsLine s j lower l
  upperLine : IsLine s i upper u
  le : j ≤ i
  lt : i < 2 ^ 24
  same : j = i → lower = upper

namespace Spans

open Barberpole

variable {spacing lower upper : Float} {s l u : Rat} {j i : Nat}

theorem pos (h : Spans spacing lower upper s l u j i) : 0 < s :=
  lt_of_lt_of_le (by positivity) h.least

/-- The errors of all steps together. -/
theorem drift_le (h : Spans spacing lower upper s l u j i) {k : Nat} (hk : k ≤ 2 ^ 25) :
    (k : Rat) * (s / 2 ^ 27) ≤ s / 4 := by
  have hpos := h.pos
  have hk' : (k : Rat) ≤ 2 ^ 25 := by exact_mod_cast hk
  calc (k : Rat) * (s / 2 ^ 27) ≤ 2 ^ 25 * (s / 2 ^ 27) := by gcongr
    _ = s / 4 := by ring

/-- One more step adds the error of one rounding, or it leads to infinity. -/
theorem step (h : Spans spacing lower upper s l u j i) {k : Nat} (hk : j + k ≤ i) {r : Rat}
    (hr : IsWorth (offsetAfter spacing lower k) r)
    (hnear : |r - (j + k : Nat) * s| ≤ (k + 1 : Nat) * (s / 2 ^ 27)) :
    ∃ r', |r' - (j + (k + 1) : Nat) * s| ≤ (k + 1 + 1 : Nat) * (s / 2 ^ 27) ∧
      (IsWorth (offsetAfter spacing lower (k + 1)) r' ∨ 2 ^ (1024 : Int) ≤ r' ∧
        (offsetAfter spacing lower (k + 1)).toModel.unpack = .infinity .positive) := by
  have hpos := h.pos
  have hlt := h.lt
  have hdrift := h.drift_le (k := k + 1) (by omega)
  have hline : ((j + k : Nat) : Rat) * s ≥ 0 := by positivity
  have hline' : ((j + k + 2 : Nat) : Rat) * s ≤ 2 ^ 25 * s := by
    gcongr
    exact_mod_cast (by omega : j + k + 2 ≤ 2 ^ 25)
  obtain ⟨hlo, hhi⟩ := abs_le.1 hnear
  push_cast at hline' hlo hhi hdrift hline
  have hadd : Rounds (r + s) (offsetAfter spacing lower (k + 1)) := rounds_add hr h.worth
  obtain ⟨r', hr', hcases⟩ := hadd.isWorth_or (by linarith)
  refine ⟨r', ?_, hcases⟩
  have herror : |r' - (r + s)| ≤ s / 2 ^ 27 := by
    refine hr'.near h.least ?_
    rw [abs_of_nonneg (by linarith)]
    linarith
  obtain ⟨hlo', hhi'⟩ := abs_le.1 herror
  push_cast
  rw [abs_le]
  constructor <;> linarith

/-- Below the upper line, the offsets are as far from the lines as their number of steps says. -/
theorem exists_near (h : Spans spacing lower upper s l u j i) {k : Nat} (hk : k < i - j) :
    ∃ r, IsWorth (offsetAfter spacing lower k) r ∧
      |r - (j + k : Nat) * s| ≤ (k + 1 : Nat) * (s / 2 ^ 27) := by
  have hpos := h.pos
  have hlt := h.lt
  induction k with
  | zero =>
    refine ⟨l, h.lowerLine.worth, ?_⟩
    simpa using near_line h.lowerLine.rounded h.least (by omega)
  | succ k ih =>
    obtain ⟨r, hr, hnear⟩ := ih (by omega)
    obtain ⟨r', hnear', hworth | ⟨hlarge, -⟩⟩ := h.step (by omega) hr hnear
    · exact ⟨r', hworth, hnear'⟩
    · -- It would be above the upper line.
      have hdrift := h.drift_le (k := k + 1 + 1) (by omega)
      have hupper := (abs_le.1 (near_line h.upperLine.rounded h.least (by omega))).1
      have hline : ((j + (k + 1) + 1 : Nat) : Rat) * s ≤ i * s := by
        gcongr
        omega
      have hhi := (abs_le.1 hnear').2
      have hbelow : r' < u := by
        push_cast at hline hhi hdrift
        linarith
      have hfinite := (le_abs_self u).trans h.upperLine.worth.abs_lt.le
      exact absurd (hlarge.trans_lt hbelow) (not_lt.2 hfinite)

/-- The bound is below the upper line, but by no more than half of a spacing and two errors. -/
theorem exists_bound (h : Spans spacing lower upper s l u j i) :
    ∃ b, IsWorth (upper - Scalar.epsilon) b ∧ b ≤ u ∧ i * s - s / 2 - 2 * (s / 2 ^ 27) ≤ b := by
  have hpos := h.pos
  have hlt := h.lt
  have hzero : 0 ≤ u := h.upperLine.rounded.ge isRepresentable_zero (by positivity)
  have hupper := near_line h.upperLine.rounded h.least (by omega)
  obtain ⟨hlo, hhi⟩ := abs_le.1 hupper
  have hi : (i : Rat) * s ≤ 2 ^ 24 * s := by
    gcongr
    exact_mod_cast hlt.le
  have hepsilon : (2 : Rat) ^ (-52 : Int) ≤ s / 2 := by
    rw [le_div_iff₀ two_pos, ← zpow_add_one₀ two_ne_zero]
    exact h.least
  have hepsilon₀ : (0 : Rat) < 2 ^ (-52 : Int) := zpow_pos two_pos _
  have hworth := isWorth_epsilon
  generalize (2 : Rat) ^ (-52 : Int) = e at hepsilon hepsilon₀ hworth
  have hsub := rounds_sub h.upperLine.worth hworth
  obtain ⟨b, hb, hrounded, -, hle⟩ := hsub.isWorth_between hworth.isRepresentable.neg
    h.upperLine.worth.isRepresentable ((abs_neg e).trans_lt hworth.abs_lt) h.upperLine.worth.abs_lt
    (by linarith) (by linarith)
  refine ⟨b, hb, hle, ?_⟩
  have herror : |b - (u - e)| ≤ s / 2 ^ 27 := by
    refine hrounded.near h.least ?_
    rw [abs_le]
    constructor <;> linarith
  have hlo' := (abs_le.1 herror).1
  linarith

/-- The loop passes every line below the upper one. -/
theorem offsetAfter_lt (h : Spans spacing lower upper s l u j i) {k : Nat} (hk : k < i - j) :
    offsetAfter spacing lower k < upper - Scalar.epsilon := by
  have hpos := h.pos
  have hlt := h.lt
  obtain ⟨b, hb, -, hlo⟩ := h.exists_bound
  obtain ⟨r, hr, hnear⟩ := h.exists_near hk
  have hdrift := h.drift_le (k := k + 1) (by omega)
  have hhi := (abs_le.1 hnear).2
  have hline : ((j + k + 1 : Nat) : Rat) * s ≤ i * s := by
    gcongr
    omega
  push_cast at hline hhi hdrift
  rw [hr.lt_iff hb]
  linarith

/-- The loop does not go more than one step past the upper line. -/
theorem not_offsetAfter_lt (h : Spans spacing lower upper s l u j i)
    (hlt : offsetAfter spacing lower (i - j) < upper - Scalar.epsilon) :
    ¬ offsetAfter spacing lower (i - j + 1) < upper - Scalar.epsilon := by
  obtain ⟨b, hb, hbu, -⟩ := h.exists_bound
  rcases h.le.eq_or_lt with heq | hji
  · -- The range is a single line, and the loop does not even begin.
    have hstart : offsetAfter spacing lower (i - j) = upper := by
      rw [heq, Nat.sub_self, offsetAfter, h.same heq]
    rw [hstart, h.upperLine.worth.lt_iff hb] at hlt
    exact absurd hbu (not_le.2 hlt)
  · have hpos := h.pos
    have hi := h.lt
    obtain ⟨d, hd⟩ : ∃ d, i - j = d + 1 := ⟨i - j - 1, by omega⟩
    obtain ⟨r, hr, hnear⟩ := h.exists_near (k := d) (by omega)
    rw [hd] at hlt ⊢
    obtain ⟨r', hnear', hr' | ⟨-, hinf⟩⟩ := h.step (by omega) hr hnear
    · obtain ⟨r'', hnear'', hr'' | ⟨-, hinf⟩⟩ := h.step (by omega) hr' hnear'
      · have hdrift := h.drift_le (k := d + 1 + 1 + 1) (by omega)
        have hlo := (abs_le.1 hnear'').1
        have hupper := (abs_le.1 (near_line h.upperLine.rounded h.least (by omega))).2
        have hline : j + (d + 1 + 1) = i + 1 := by omega
        rw [hline] at hlo
        push_cast at hlo hdrift
        rw [hr''.lt_iff hb]
        linarith
      · exact not_lt_of_infinity hinf
    · exact absurd hlt (not_lt_of_infinity hinf)

/-- Without rounding there is no drift. -/
theorem isWorth_offsetAfter (h : Spans spacing lower upper s l u j i)
    (hexact : ∀ n ≤ i, IsRepresentable (n * s)) {k : Nat} (hk : k ≤ i - j) :
    IsWorth (offsetAfter spacing lower k) ((j + k : Nat) * s) := by
  have hpos := h.pos
  have hle := h.le
  have hu : u = i * s := h.upperLine.rounded.eq (hexact i le_rfl)
  induction k with
  | zero =>
    have hl : l = j * s := h.lowerLine.rounded.eq (hexact j h.le)
    exact hl ▸ h.lowerLine.worth
  | succ k ih =>
    have hadd := rounds_add (ih (by omega)) h.worth
    have hnext : ((j + k : Nat) : Rat) * s + s = (j + (k + 1) : Nat) * s := by
      push_cast
      ring
    rw [hnext] at hadd
    refine hadd.isWorth (hexact _ (by omega)) ?_
    rw [abs_of_nonneg (by positivity)]
    have hline : ((j + (k + 1) : Nat) : Rat) * s ≤ i * s := by
      gcongr
      omega
    exact (hline.trans_eq hu.symm).trans_lt ((le_abs_self u).trans_lt h.upperLine.worth.abs_lt)

/-- The loop ends with the line below the upper one, or with the upper one itself. -/
theorem exists_passes (h : Spans spacing lower upper s l u j i) :
    ∃ n, (n = i - j ∨ n = i - j + 1) ∧
      (n = i - j + 1 ↔ offsetAfter spacing lower (i - j) < upper - Scalar.epsilon) ∧
      Passes spacing (upper - Scalar.epsilon) lower
        ((List.range n).map (offsetAfter spacing lower)) := by
  by_cases hsurplus : offsetAfter spacing lower (i - j) < upper - Scalar.epsilon
  · refine ⟨i - j + 1, .inr rfl, iff_of_true rfl hsurplus, passes_map_offsetAfter (fun k hk => ?_)
      (h.not_offsetAfter_lt hsurplus)⟩
    obtain hk | rfl : k < i - j ∨ k = i - j := by omega
    · exact h.offsetAfter_lt hk
    · exact hsurplus
  · exact ⟨i - j, .inl rfl, iff_of_false (by omega) hsurplus,
      passes_map_offsetAfter (fun k hk => h.offsetAfter_lt hk) hsurplus⟩

/-- Without rounding the loop ends below the upper line. -/
theorem not_offsetAfter_lt_of_exact (h : Spans spacing lower upper s l u j i)
    (hexact : ∀ n ≤ i, IsRepresentable (n * s)) :
    ¬ offsetAfter spacing lower (i - j) < upper - Scalar.epsilon := by
  obtain ⟨b, hb, hbu, -⟩ := h.exists_bound
  have hend := h.isWorth_offsetAfter hexact le_rfl
  have hu : u = i * s := h.upperLine.rounded.eq (hexact i le_rfl)
  rw [Nat.add_sub_cancel' h.le, ← hu] at hend
  rw [hend.lt_iff hb]
  exact not_lt.2 hbu

end Spans

/-! ## Barberpoles -/

namespace Barberpole

/-- How many gaps there are between neighbouring courses of those that a barberpole covers. -/
def gaps {α : Type} (courses : Nat) (b : Barberpole α) : Nat :=
  Nat.dist (b.range.getD (1, courses)).1 (b.range.getD (1, courses)).2

/-- The lowest line that a barberpole covers, counted from zero. -/
def lowest {α : Type} (g : Grid α) (b : Barberpole α) : Nat :=
  min (g.orientation.linePosition (b.range.getD (1, g.courses)).1 g.courses - 1)
    (g.orientation.linePosition (b.range.getD (1, g.courses)).2 g.courses - 1)

/-- What a barberpole draws on a grid whose spacing is worth `s`: a box in each gap, and one more if
the offset that is reached after the last gap has fallen short of the upper course. -/
structure Fills (g : Grid Float) (s : Rat) (b : Barberpole Float) : Prop where
  passes : Passes b.courseSpacing (b.upper - Scalar.epsilon) b.lower b.boxes
  length : b.boxes.length = b.gaps g.courses ∨ b.boxes.length = b.gaps g.courses + 1
  surplus : b.boxes.length = b.gaps g.courses + 1 ↔
    offsetAfter b.courseSpacing b.lower (b.gaps g.courses) < b.upper - Scalar.epsilon
  near : ∀ k < b.gaps g.courses, ∃ foot r, b.boxes[k]? = some foot ∧ IsWorth foot r ∧
    |r - (b.lowest g + k : Nat) * s| ≤ s / 4
  exact : (∀ n < g.courses, IsRepresentable (n * s)) → b.boxes.length = b.gaps g.courses ∧
    ∀ k < b.gaps g.courses, ∃ foot, b.boxes[k]? = some foot ∧
      IsWorth foot ((b.lowest g + k : Nat) * s)
  strokes : b.draw.length = 8 + 6 * b.boxes.length

/-- Every box is drawn with six strokes, the rest of a barberpole with eight. -/
theorem length_draw {α : Type} [Scalar α] (b : Barberpole α) :
    b.draw.length = 8 + 6 * b.boxes.length := by
  have hbox : ∀ offset ∈ b.boxes, (Drawing.crossedRectangle b.x (b.y + offset) b.width
      b.courseSpacing Drawing.lineWidth).length = 6 := fun _ _ => rfl
  simp only [draw, List.length_append, List.length_flatMap]
  rw [List.map_congr_left hbox, List.map_const', List.sum_replicate, smul_eq_mul, Nat.mul_comm]
  rfl

/-- The loop of a barberpole fills what it spans. -/
theorem fills_of_spans {g : Grid Float} {b : Barberpole Float} {s l u : Rat} {j i : Nat}
    (h : Spans b.courseSpacing b.lower b.upper s l u j i) (hi : i < g.courses)
    (hlowest : b.lowest g = j) (hgaps : b.gaps g.courses = i - j) : b.Fills g s := by
  obtain ⟨n, hn, hsurplus, hpasses⟩ := h.exists_passes
  have hlt := h.lt
  have hboxes : b.boxes = (List.range n).map (offsetAfter b.courseSpacing b.lower) := by
    refine hpasses.offsets_eq ?_
    rw [List.length_map, List.length_range]
    exact (by omega : n ≤ 2 ^ 25).trans (by decide)
  have hlength : b.boxes.length = n := by rw [hboxes, List.length_map, List.length_range]
  have hfoot {k : Nat} (hk : k < i - j) :
      b.boxes[k]? = some (offsetAfter b.courseSpacing b.lower k) := by
    rw [hboxes, List.getElem?_map, List.getElem?_range (by omega)]
    rfl
  rw [← hgaps] at hn hsurplus
  refine ⟨hboxes ▸ hpasses, hlength ▸ hn, hlength ▸ hsurplus, fun k hk => ?_, fun hexact => ?_,
    b.length_draw⟩
  · rw [hgaps] at hk
    obtain ⟨r, hr, hnear⟩ := h.exists_near hk
    rw [hlowest]
    exact ⟨_, r, hfoot hk, hr, hnear.trans (h.drift_le (by omega))⟩
  · have hexact : ∀ m ≤ i, IsRepresentable (m * s) := fun m hm => hexact m (by omega)
    have hend := h.not_offsetAfter_lt_of_exact hexact
    rw [← hgaps] at hend
    refine ⟨by rw [hlength]; exact hn.resolve_right fun e => hend (hsurplus.1 e), fun k hk => ?_⟩
    rw [hgaps] at hk
    rw [hlowest]
    exact ⟨_, hfoot hk, h.isWorth_offsetAfter hexact hk.le⟩

end Barberpole

/-- The smaller of the places of two lines is that of the lower line, the larger that of the
upper. -/
theorem lesser_greater_of_isLine {v : Nat → Float} {s : Rat} {n i j : Nat}
    (hs : 2 ^ (-51 : Int) ≤ s) (hn : n ≤ 2 ^ 24) (hv : ∀ i ≤ n, ∃ r, IsLine s i (v i) r)
    (hi : i ≤ n) (hj : j ≤ n) :
    Scalar.lesser (v i) (v j) = v (min i j) ∧ Scalar.greater (v i) (v j) = v (max i j) := by
  obtain ⟨x, hx⟩ := hv i hi
  obtain ⟨y, hy⟩ := hv j hj
  have hself : v j ≤ v j := (hy.worth.le_iff hy.worth).2 le_rfl
  rw [Scalar.lesser, Scalar.greater, if_pos hself]
  rcases lt_trichotomy i j with hlt | rfl | hgt
  · have hxy := line_lt_line hx.rounded hy.rounded hs hlt (by omega)
    rw [if_pos ((hx.worth.le_iff hy.worth).2 hxy.le),
      if_neg (mt (hy.worth.le_iff hx.worth).1 (not_le.2 hxy)), min_eq_left hlt.le,
      max_eq_right hlt.le]
    exact ⟨rfl, rfl⟩
  · rw [if_pos hself, min_self, max_self]
    exact ⟨rfl, rfl⟩
  · have hyx := line_lt_line hy.rounded hx.rounded hs hgt (by omega)
    rw [if_neg (mt (hx.worth.le_iff hy.worth).1 (not_le.2 hyx)),
      if_pos ((hy.worth.le_iff hx.worth).2 hyx.le), min_eq_right hgt.le, max_eq_left hgt.le]
    exact ⟨rfl, rfl⟩

/-- The courses of a grid are so far apart that the epsilon at the end of the loop does not matter,
the highest line is at a finite height, and there are not so many that the errors of rounding add
up to a spacing. -/
structure Grid.IsSpaced (g : Grid Float) : Prop where
  spacing : 2.0 * Scalar.epsilon ≤ g.courseSpacing
  height : g.height.isFinite = true
  courses : g.courses ≤ 2 ^ 24

instance (g : Grid Float) : Decidable g.IsSpaced :=
  decidable_of_iff (2.0 * Scalar.epsilon ≤ g.courseSpacing ∧ g.height.isFinite = true ∧
      g.courses ≤ 2 ^ 24)
    ⟨fun ⟨h₁, h₂, h₃⟩ => ⟨h₁, h₂, h₃⟩, fun ⟨h₁, h₂, h₃⟩ => ⟨h₁, h₂, h₃⟩⟩

namespace Barberpole

theorem isWorth_two_epsilon : IsWorth (2.0 * Scalar.epsilon) (2 ^ (-51 : Int)) := by
  have h : (2.0 * Scalar.epsilon : Float).toModel.unpack =
      .finite .positive (2 ^ 52) (-103) (by decide) := by rfl
  convert isWorth_of_unpack h using 1
  norm_num

/-- The gaps between two courses are those between their lines, whichever way up the stave is. -/
theorem dist_linePosition (o : Orientation) {courses first last : Nat}
    (hfirst : 1 ≤ first ∧ first ≤ courses) (hlast : 1 ≤ last ∧ last ≤ courses) :
    Nat.dist first last =
      max (o.linePosition first courses - 1) (o.linePosition last courses - 1) -
        min (o.linePosition first courses - 1) (o.linePosition last courses - 1) := by
  cases o with
  | italian =>
    simp only [Orientation.linePosition_italian, Nat.dist]
    omega
  | french =>
    simp only [Orientation.linePosition_french, Nat.dist]
    omega

/-- A barberpole reaches from the lower to the higher of two courses of a grid. -/
structure Reaches {α : Type} [Scalar α] (g : Grid α) (b : Barberpole α) : Prop where
  courses : ∀ course ∈ (Glyph.barberpole b).mark.courses g.courses,
    1 ≤ course ∧ course ≤ g.courses
  courseSpacing : b.courseSpacing = g.courseSpacing
  lower : b.lower = Scalar.lesser (g.courseOffset (b.range.getD (1, g.courses)).1)
    (g.courseOffset (b.range.getD (1, g.courses)).2)
  upper : b.upper = Scalar.greater (g.courseOffset (b.range.getD (1, g.courses)).1)
    (g.courseOffset (b.range.getD (1, g.courses)).2)

/-- A barberpole fills the gaps between the courses that it reaches. -/
theorem Reaches.fills {g : Grid Float} {s : Rat} {b : Barberpole Float} (hb : b.Reaches g)
    (hg : g.IsSpaced) (hs : IsWorth g.courseSpacing s) : b.Fills g s := by
  have hleast : 2 ^ (-51 : Int) ≤ s := (isWorth_two_epsilon.le_iff hs).1 hg.spacing
  have hn : g.courses - 1 ≤ 2 ^ 24 := (Nat.sub_le _ _).trans hg.courses
  have hlines (i : Nat) (hi : i ≤ g.courses - 1) := exists_isLine hs hleast hn hg.height hi
  have hfirst := hb.courses _ List.mem_cons_self
  have hlast := hb.courses _ (List.mem_cons_of_mem _ List.mem_cons_self)
  have hi := (g.orientation.linePosition_mem hfirst.1 hfirst.2).2
  have hj := (g.orientation.linePosition_mem hlast.1 hlast.2).2
  have hgaps := dist_linePosition g.orientation hfirst hlast
  obtain ⟨hlesser, hgreater⟩ := lesser_greater_of_isLine hleast hn hlines
    (Nat.sub_le_sub_right hi 1) (Nat.sub_le_sub_right hj 1)
  have hlower := hb.lower.trans hlesser
  have hupper := hb.upper.trans hgreater
  have htop := max_le (Nat.sub_le_sub_right hi 1) (Nat.sub_le_sub_right hj 1)
  obtain ⟨l, hl⟩ := hlines _ (min_le_max.trans htop)
  obtain ⟨u, hu⟩ := hlines _ htop
  have hcourses := hg.courses
  refine fills_of_spans (l := l) (u := u) ⟨hb.courseSpacing ▸ hs, hleast, hlower ▸ hl, hupper ▸ hu,
    min_le_max, by omega, fun h => ?_⟩ (by omega) rfl hgaps
  rw [hlower, hupper, h]

end Barberpole

/-! ## Staves -/

/-- The barberpoles on a stave. -/
def Stave.barberpoles {α : Type} (v : Stave α) : List (Barberpole α) :=
  v.glyphs.filterMap fun
    | .barberpole b => some b
    | _ => none

theorem Stave.mem_barberpoles {α : Type} {v : Stave α} {b : Barberpole α} :
    b ∈ v.barberpoles ↔ .barberpole b ∈ v.glyphs := by
  rw [barberpoles, List.mem_filterMap]
  constructor
  · rintro ⟨x, hx, e⟩
    cases x <;> cases e
    exact hx
  · exact fun h => ⟨_, h, rfl⟩

/-- Justifying moves barberpoles sideways only. -/
theorem Stave.reaches_justify {α : Type} [Scalar α] {v : Stave α}
    (h : ∀ b ∈ v.barberpoles, b.Reaches v.toGrid) :
    ∀ b ∈ v.justify.barberpoles, b.Reaches v.toGrid := by
  simp only [mem_barberpoles] at h ⊢
  intro b hb
  unfold justify at hb
  split at hb
  · exact h b hb
  · obtain ⟨x, hx, e⟩ := List.mem_map.1 hb
    cases x with
    | barberpole c =>
      cases e
      exact ⟨(h c hx).courses, (h c hx).courseSpacing, (h c hx).lower, (h c hx).upper⟩
    | _ =>
      have hmark := congrArg Glyph.mark e
      rw [mark_pad] at hmark
      cases hmark

namespace Score

/-- What the barberpoles of a source draw, however the errors of rounding add up: the loop ends,
each gap has its box, and there is one box more if and only if the offsets have drifted. -/
theorem fills_of_parse {source : String} {d : Document Float} (h : parse source = .ok d) :
    ∀ p ∈ d.pages, ∀ v ∈ p.staves, v.IsSpaced → ∀ b ∈ v.barberpoles,
      b.Fills v.toGrid (Binary.ofFloat v.courseSpacing).value := by
  obtain ⟨s, hs, rfl⟩ := parse_eq_ok.1 h
  have hmeasured := Page.invariant_measured.stepAll hs
    (everywhere_empty Layout.measured_initial_float)
  have hwell := Page.invariant_wellFormed.stepAll hs
    (everywhere_empty Layout.measured_initial_float)
  have hstands := Page.invariant_standsOn.stepAll hs fun p hp => by cases hp
  have hwritten : ∀ p ∈ s.document.pages, ∀ v ∈ p.staves,
      v.courseSpacing.isFinite = true ∧ ∀ b ∈ v.barberpoles, b.Reaches v.toGrid := by
    intro p hp v hv
    refine ⟨((hmeasured.pages p hp).2 v hv).courseSpacing.1, fun b hb => ?_⟩
    have hb := Stave.mem_barberpoles.1 hb
    obtain ⟨-, -, -, hspacing, hlower, hupper⟩ := hstands p hp v hv _ hb
    exact ⟨(((hwell.pages p hp).2 v hv).marks _ hb).courses, hspacing, hlower, hupper⟩
  have hfinished := forall_finish (fun hp v hv => by
    obtain ⟨u, hu, rfl⟩ := List.mem_map.1 hv
    rw [Stave.toGrid_justify]
    exact ⟨(hp u hu).1, Stave.reaches_justify (hp u hu).2⟩) hwritten
  intro p hp v hv hspaced b hb
  obtain ⟨hfinite, hreach⟩ := hfinished p hp v hv
  exact (hreach b hb).fills hspaced ⟨hfinite, rfl⟩

/-- A barberpole over seven courses that are 9.8 apart. -/
theorem surplus_box : ∃ d : Document Float,
    parse "COURSESPACING 9.8\nNUMBEROFCOURSES 7\nP-1\nS-\nBP-" = .ok d ∧
      ∃ p ∈ d.pages, ∃ v ∈ p.staves, v.IsSpaced ∧ (0.0 : Float) < v.courseSpacing ∧
        ∃ b ∈ v.barberpoles, b.boxes.length = 7 ∧ b.gaps v.courses = 6 := by
  have h : ((parse "COURSESPACING 9.8\nNUMBEROFCOURSES 7\nP-1\nS-\nBP-").toOption.map
      fun d : Document Float => decide (∃ p ∈ d.pages, ∃ v ∈ p.staves, v.IsSpaced ∧
        (0.0 : Float) < v.courseSpacing ∧
        ∃ b ∈ v.barberpoles, b.boxes.length = 7 ∧ b.gaps v.courses = 6)) = some true := by
    decide +kernel
  obtain ⟨d, hd, hboxes⟩ := exists_of_toOption_map h
  exact ⟨d, hd, of_decide_eq_true hboxes⟩

/-- Six gaps, and a seventh box above them. -/
theorem fills_surplus_box : ∃ d : Document Float,
    parse "COURSESPACING 9.8\nNUMBEROFCOURSES 7\nP-1\nS-\nBP-" = .ok d ∧
      (∃ p ∈ d.pages, ∃ v ∈ p.staves, v.IsSpaced ∧ (0.0 : Float) < v.courseSpacing ∧
        ∃ b ∈ v.barberpoles, b.boxes.length = 7 ∧ b.gaps v.courses = 6) ∧
      ∀ p ∈ d.pages, ∀ v ∈ p.staves, v.IsSpaced → ∀ b ∈ v.barberpoles,
        b.Fills v.toGrid (Binary.ofFloat v.courseSpacing).value := by
  obtain ⟨d, hd, hboxes⟩ := surplus_box
  exact ⟨d, hd, hboxes, fills_of_parse hd⟩

/-- The boxes are not always as many as the gaps. -/
theorem exists_surplus_box : ¬ ∀ (source : String) (d : Document Float), parse source = .ok d →
    ∀ p ∈ d.pages, ∀ v ∈ p.staves, (0.0 : Float) < v.courseSpacing → ∀ b ∈ v.barberpoles,
      b.boxes.length = b.gaps v.courses := by
  intro hall
  obtain ⟨d, hd, p, hp, v, hv, -, hpos, b, hb, hboxes, hgaps⟩ := surplus_box
  have := hall _ d hd p hp v hv hpos b hb
  omega

end Score

end Tablature
