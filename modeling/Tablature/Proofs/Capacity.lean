import Mathlib.Data.Rat.Floor
import Mathlib.Tactic.Linarith
import Tablature.Proofs.Step

/-!
# How many staves fit on a page

The capacity of a page for staves of a height is a quotient, rounded down, and no stave is
refused for it. Where the staves stand is a product with their index. In exact arithmetic
the two agree: of staves of that height, those within the capacity stand, with the room
between them, above the bottom of the page, and the first one beyond it does not.

* `Page.appendAll`, `appendAll_eq`: staves put on a page one after the other, and where
  they stand, in any arithmetic;
* `capacity_eq_iff`: the capacity as a whole number of staves with the room between them;
* `Page.Column`: a page with staves of a height above and below its capacity;
* `Page.column_of_capacity`: staves of one height that are put on an empty page.
-/

namespace Tablature

namespace Page

/-! ## Staves put on a page -/

section

variable {α : Type} [Scalar α]

/-- Puts staves below the others, one after the other. -/
def appendAll (p : Page α) (vs : List (Stave α)) : Except (Stop α) (Page α) := vs.foldlM append p

/-- The stave as the one with a given number of staves above it. -/
def settle (p : Page α) (v : Stave α) (index : Nat) : Stave α :=
  v.moveTo p.leftMargin (p.staveY index v.height) p.staveLength

/-- On a page with room between its margins, staves are put below one another as they are, each with
those before it above it. -/
theorem appendAll_eq (p : Page α) (h : ¬ p.staveLength ≤ 0.0) (vs : List (Stave α)) :
    p.appendAll vs = .ok { p with
      staves := p.staves ++ (vs.zipIdx p.staves.length).map fun (v, i) => p.settle v i } := by
  induction vs generalizing p with
  | nil => simp only [List.zipIdx_nil, List.map_nil, List.append_nil]; rfl
  | cons v vs ih =>
    have hv : p.append v =
        .ok { p with staves := p.staves ++ [p.settle v p.staves.length] } :=
      append_eq_ok.2 ⟨h, rfl⟩
    rw [appendAll, List.foldlM_cons, hv]
    refine (ih { p with staves := p.staves ++ [p.settle v p.staves.length] } h).trans ?_
    rw [List.length_append, List.length_singleton, List.append_assoc]
    rfl

end

/-! ## Capacity -/

variable {p : Page Rat} {h : Rat}

theorem capacity_eq_floor (p : Page Rat) (h : Rat) :
    p.capacity h = min ⌊(p.height - p.topMargin) / (h + p.staveSeparation)⌋₊ Count.max := by
  rw [← Int.floor_toNat]
  change min (Rat.floor (((_ : Rat).floor : Int) : Rat)).toNat Count.max = _
  rw [Rat.floor_intCast]
  rfl

/-- As many staves as fit below the top margin, each with the room that separates it from the next,
and no more. -/
theorem capacity_eq_iff (htop : p.topMargin ≤ p.height) (hstep : 0 < h + p.staveSeparation)
    (hmax : p.height - p.topMargin < (Count.max + 1) * (h + p.staveSeparation)) (n : Nat) :
    n = p.capacity h ↔
      n * (h + p.staveSeparation) ≤ p.height - p.topMargin ∧
        p.height - p.topMargin < (n + 1) * (h + p.staveSeparation) := by
  have hroom : 0 ≤ (p.height - p.topMargin) / (h + p.staveSeparation) :=
    div_nonneg (sub_nonneg.2 htop) hstep.le
  have hcount : ⌊(p.height - p.topMargin) / (h + p.staveSeparation)⌋₊ ≤ Count.max := by
    refine Nat.lt_succ_iff.1 ((Nat.floor_lt hroom).2 ?_)
    rw [div_lt_iff₀ hstep, Nat.cast_succ]
    exact hmax
  rw [capacity_eq_floor, min_eq_left hcount, eq_comm, Nat.floor_eq_iff hroom, le_div_iff₀ hstep,
    div_lt_iff₀ hstep]

/-- The second page is the first one with these staves, all of one height. Those within the capacity,
and no others, have their bottom line at least as high above the bottom of the page as a stave and
the room behind it take; and from each bottom line to the next it is just as far. -/
structure Column (p : Page Rat) (vs : List (Stave Rat)) (h : Rat) (q : Page Rat) : Prop where
  staves : q = { p with staves := vs.zipIdx.map fun (v, i) => p.settle v i }
  fits : ∀ (i : Nat) (w : Stave Rat), q.staves[i]? = some w →
    (h + p.staveSeparation ≤ w.y ↔ i < p.capacity h)
  apart : ∀ (i : Nat) (v w : Stave Rat), q.staves[i]? = some v → q.staves[i + 1]? = some w →
    v.y - w.y = h + p.staveSeparation

/-- With so many staves of its height above it, a stave has room for itself if and only if they are
fewer than the capacity. -/
theorem le_staveY_iff (htop : p.topMargin ≤ p.height) (hstep : 0 < h + p.staveSeparation)
    (hmax : p.height - p.topMargin < (Count.max + 1) * (h + p.staveSeparation)) (i : Nat) :
    h + p.staveSeparation ≤ p.staveY i h ↔ i < p.capacity h := by
  obtain ⟨hle, hlt⟩ := (capacity_eq_iff htop hstep hmax _).1 rfl
  change h + p.staveSeparation ≤ p.height - p.topMargin - (i : Rat) * (h + p.staveSeparation) ↔ _
  rw [le_sub_iff_add_le, ← one_add_mul, ← Nat.add_one_le_iff]
  constructor
  · intro hi
    have hmul : ((1 + i : Nat) : Rat) * (h + p.staveSeparation) <
        ((p.capacity h + 1 : Nat) : Rat) * (h + p.staveSeparation) := by
      push_cast
      exact hi.trans_lt hlt
    have := Nat.cast_lt.1 (lt_of_mul_lt_mul_right hmul hstep.le)
    omega
  · intro hi
    have hcast : (1 : Rat) + i ≤ p.capacity h := by
      rw [add_comm]
      exact_mod_cast hi
    exact (mul_le_mul_of_nonneg_right hcast hstep.le).trans hle

/-- The capacity of a page for staves of a height is the one number of staves of that height that fit
below the top margin, each with the room that separates it from the next, such that one more does
not. However many of them are put on the empty page, none is refused; those within the capacity, and
no others, end above the bottom of the page by at least a stave with its room, and each bottom line
is just as far below the one before it. -/
theorem column_of_capacity (hempty : p.staves = []) (hlength : 0 < p.staveLength)
    (htop : p.topMargin ≤ p.height) (hstep : 0 < h + p.staveSeparation)
    (hmax : p.height - p.topMargin < (Count.max + 1) * (h + p.staveSeparation)) :
    (∀ n : Nat, n = p.capacity h ↔
      n * (h + p.staveSeparation) ≤ p.height - p.topMargin ∧
        p.height - p.topMargin < (n + 1) * (h + p.staveSeparation)) ∧
    ∀ vs : List (Stave Rat), (∀ v ∈ vs, v.height = h) →
      ∃ q, p.appendAll vs = .ok q ∧ p.Column vs h q := by
  refine ⟨capacity_eq_iff htop hstep hmax, fun vs hvs => ?_⟩
  have hroom : ¬ p.staveLength ≤ 0.0 := by norm_num [hlength]
  have hq := p.appendAll_eq hroom vs
  rw [hempty, List.nil_append, List.length_nil] at hq
  have hy (i : Nat) (w : Stave Rat) (hw : (vs.zipIdx.map fun (v, i) => p.settle v i)[i]? = some w) :
      w.y = p.staveY i h := by
    rw [List.getElem?_map, List.getElem?_zipIdx, Option.map_map] at hw
    obtain ⟨v, hv, rfl⟩ := Option.map_eq_some_iff.1 hw
    simp only [Function.comp_apply, Nat.zero_add, settle, Stave.moveTo,
      hvs v (List.mem_of_getElem? hv)]
  refine ⟨_, hq, rfl, fun i w hw => ?_, fun i v w hv hw => ?_⟩
  · rw [hy i w hw]
    exact le_staveY_iff htop hstep hmax i
  · rw [hy i v hv, hy (i + 1) w hw]
    change p.height - p.topMargin - (i : Rat) * (h + p.staveSeparation) -
      (p.height - p.topMargin - ((i + 1 : Nat) : Rat) * (h + p.staveSeparation)) = _
    push_cast
    ring

/-- Eight staves on the first page that there is by default, which has room for seven: the eighth
ends too low. -/
theorem column_of_default :
    let p : Page Rat := .blank .initial 1 true
    let vs : List (Stave Rat) := List.replicate 8 (.blank .initial false)
    p.staves = [] ∧ 0 < p.staveLength ∧ p.topMargin ≤ p.height ∧ 0 < 40 + p.staveSeparation ∧
      p.height - p.topMargin < (Count.max + 1) * (40 + p.staveSeparation) ∧
      (∀ v ∈ vs, v.height = 40) ∧ p.capacity 40 = 7 ∧
      ∃ q, p.appendAll vs = .ok q ∧ p.Column vs 40 q ∧
        q.staves.map (·.y) = [642, 554, 466, 378, 290, 202, 114, 26] := by
  intro p vs
  have hlength : 0 < p.staveLength := by decide +kernel
  have htop : p.topMargin ≤ p.height := by decide +kernel
  have hstep : 0 < 40 + p.staveSeparation := by decide +kernel
  have hmax : p.height - p.topMargin < (Count.max + 1) * (40 + p.staveSeparation) := by
    decide +kernel
  have hvs : ∀ v ∈ vs, v.height = 40 := by decide +kernel
  obtain ⟨hn, hcolumn⟩ := column_of_capacity rfl hlength htop hstep hmax
  obtain ⟨q, hq, hc⟩ := hcolumn vs hvs
  refine ⟨rfl, hlength, htop, hstep, hmax, hvs, ((hn 7).2 (by decide +kernel)).symm, q, hq, hc, ?_⟩
  rw [hc.staves]
  decide +kernel

end Page

end Tablature
