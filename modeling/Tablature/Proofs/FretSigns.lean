import Tablature.Proofs.Labels
import Tablature.Proofs.NoteLines
import Tablature.Proofs.Numerals

/-!
# Signs for frets

A line that lists signs for frets replaces the ones in force by its own, or none of them
if one of its words is no pair. What is printed for a fret can then be told from the
list alone: the last pair for a sign counts, and a fret that begins with digits is looked
up by its number.

* `WritesFretPair`: how a pair is written;
* `FretMap.Holds`, `holds_ofList`: a map that holds a list of pairs and nothing else;
* `PrintsSign`, `PrintsFret`: what is printed by such a list;
* `Score.feed_fretMap`: what a line with a list of signs does.
-/

namespace Tablature

/-! ## The list -/

/-- A text of blanks alone has no words. -/
theorem Text.words_eq_nil_iff {cs : List Char} : words cs = [] ↔ ∀ c ∈ cs, isBlank c = true := by
  induction cs with
  | nil => simp [words]
  | cons c cs ih =>
    rw [words, List.splitOnP_cons_eq_if_modifyHead]
    by_cases hc : isBlank c = true
    · rw [if_pos hc, List.forall_mem_cons, ← ih]
      simp [words, hc]
    · rw [if_neg hc]
      obtain ⟨w, ws, hws⟩ := List.exists_cons_of_ne_nil (List.splitOnP_ne_nil isBlank cs)
      simp [hws, hc]

/-- The pair of a sign and what is printed for it that a word of the list writes: the first dash of
the word stands between them. -/
structure WritesFretPair (word : List Char) (pair : String × String) : Prop where
  sign : pair.1 ≠ ""
  target : pair.2 ≠ ""
  first : '-' ∉ pair.1.toList
  text : word = pair.1.toList ++ '-' :: pair.2.toList

theorem WritesFretPair.isFretPair {word : List Char} {pair : String × String}
    (h : WritesFretPair word pair) : IsFretPair word :=
  ⟨pair.1.toList, pair.2.toList, String.toList_eq_nil_iff.not.2 h.sign,
    String.toList_eq_nil_iff.not.2 h.target, h.first, h.text⟩

theorem readFretPair_eq_ok_iff {word : List Char} {pair : String × String} :
    readFretPair word = .ok pair ↔ WritesFretPair word pair := by
  obtain ⟨sign, target⟩ := pair
  constructor
  · intro h
    unfold readFretPair at h
    split at h
    · rename_i hcut
      obtain ⟨hfirst, rfl⟩ := Text.cut?_eq_some_iff.1 hcut
      cases h
      exact ⟨by simp, by simp, by simpa using hfirst, by simp⟩
    · cases h
  · rintro ⟨hsign, htarget, hfirst, rfl⟩
    obtain ⟨a, sign', hsign⟩ := List.exists_cons_of_ne_nil (String.toList_eq_nil_iff.not.2 hsign)
    obtain ⟨b, target', htarget⟩ :=
      List.exists_cons_of_ne_nil (String.toList_eq_nil_iff.not.2 htarget)
    have hcut := Text.cut?_append hfirst target.toList
    simp only [hsign, htarget] at hcut ⊢
    rw [readFretPair, hcut]
    simp only [← hsign, ← htarget, String.ofList_toList]

/-! ## The map -/

/-- The last of the pairs for a sign has this target. -/
def IsLastFor (pairs : List (String × String)) (sign target : String) : Prop :=
  ∃ before after, pairs = before ++ (sign, target) :: after ∧ ∀ p ∈ after, p.1 ≠ sign

section

variable {pairs : List (String × String)} {p : String × String} {sign target : String}

theorem isLastFor_concat : IsLastFor (pairs ++ [p]) sign target ↔
    p = (sign, target) ∨ p.1 ≠ sign ∧ IsLastFor pairs sign target := by
  constructor
  · rintro ⟨before, after, e, hafter⟩
    rcases List.eq_nil_or_concat after with rfl | ⟨after, q, rfl⟩
    · exact .inl (List.singleton_inj.1 (List.append_inj' e rfl).2)
    · rw [List.concat_eq_append] at hafter e
      rw [← List.cons_append, ← List.append_assoc] at e
      obtain ⟨rfl, eq⟩ := List.append_inj' e rfl
      obtain rfl := List.singleton_inj.1 eq
      have hp : p.1 ≠ sign := hafter p (by simp)
      exact .inr ⟨hp, before, after, rfl, fun q hq => hafter q (List.mem_append_left _ hq)⟩
  · rintro (rfl | ⟨hp, before, after, rfl, hafter⟩)
    · exact ⟨pairs, [], rfl, nofun⟩
    · refine ⟨before, after ++ [p], by simp, fun q hq => ?_⟩
      rcases List.mem_append.1 hq with hq | hq
      · exact hafter q hq
      · rwa [List.mem_singleton.1 hq]

theorem not_isLastFor_nil : ¬ IsLastFor [] sign target := by
  rintro ⟨before, after, e, -⟩
  simp at e

theorem IsLastFor.unique {other : String} (h : IsLastFor pairs sign target)
    (h' : IsLastFor pairs sign other) : target = other := by
  induction pairs using List.reverseRecOn with
  | nil => exact absurd h not_isLastFor_nil
  | append_singleton pairs p ih =>
    obtain rfl | ⟨hp, h⟩ := isLastFor_concat.1 h
    · obtain e | ⟨hp, -⟩ := isLastFor_concat.1 h'
      · cases e; rfl
      · exact absurd rfl hp
    · obtain rfl | ⟨-, h'⟩ := isLastFor_concat.1 h'
      · exact absurd rfl hp
      · exact ih h h'

/-- A sign has a last pair if it has one at all. -/
theorem exists_isLastFor_iff :
    (∃ target, IsLastFor pairs sign target) ↔ ∃ p ∈ pairs, p.1 = sign := by
  induction pairs using List.reverseRecOn with
  | nil => simp [not_isLastFor_nil]
  | append_singleton pairs p ih =>
    obtain ⟨k, v⟩ := p
    simp only [isLastFor_concat, exists_or, exists_and_left, ih, Prod.mk.injEq, exists_eq',
      and_true, List.mem_append, List.mem_singleton, or_and_right, exists_eq_left]
    by_cases h : k = sign <;> simp [h]

end

/-- The entries of the map are the pairs that are the last for their sign, and no sign has two. -/
structure FretMap.Holds (m : FretMap) (pairs : List (String × String)) : Prop where
  mem_iff : ∀ sign target, (sign, target) ∈ m.entries ↔ IsLastFor pairs sign target
  nodup : (m.entries.map Prod.fst).Nodup

namespace FretMap

variable {m : FretMap} {pairs : List (String × String)}

theorem holds_empty : empty.Holds [] where
  mem_iff _ _ := iff_of_false List.not_mem_nil not_isLastFor_nil
  nodup := List.nodup_nil

/-- A pair that is put in stands behind those that the map has held. -/
theorem Holds.insert (h : m.Holds pairs) (p : String × String) :
    (m.insert p.1 p.2).Holds (pairs ++ [p]) where
  mem_iff sign target := by
    rw [isLastFor_concat, ← h.mem_iff]
    simp only [FretMap.insert, List.mem_cons, List.mem_filter, bne_iff_ne, ne_eq]
    exact or_congr eq_comm (and_comm.trans (and_congr_left' (not_congr eq_comm)))
  nodup := by
    have hrest := (List.filter_sublist (l := m.entries) (p := fun e => e.1 != p.1)).map Prod.fst
    simp only [FretMap.insert, List.map_cons, List.nodup_cons]
    refine ⟨?_, h.nodup.sublist hrest⟩
    simp

/-- A map that is made of a list of pairs holds them and nothing else. -/
theorem holds_ofList (pairs : List (String × String)) : (ofList pairs).Holds pairs := by
  induction pairs using List.reverseRecOn with
  | nil => exact holds_empty
  | append_singleton pairs p ih =>
    rw [ofList, List.foldl_concat]
    exact ih.insert p

end FretMap

/-! ## What is printed -/

/-- A text begins with no digit, or with a row of them. -/
theorem Numeral.endsDigits_or (cs : List Char) : EndsDigits cs ∨
    ∃ digits rest, cs = digits ++ rest ∧ digits ≠ [] ∧ AreDigits digits ∧ EndsDigits rest := by
  have hrest := endsDigits_dropWhile cs
  have hcs : cs = cs.takeWhile isDigit ++ cs.dropWhile isDigit :=
    List.takeWhile_append_dropWhile.symm
  by_cases hdigits : cs.takeWhile isDigit = []
  · rw [hdigits, List.nil_append] at hcs
    exact .inl (hcs ▸ hrest)
  · exact .inr ⟨_, _, hcs, hdigits, areDigits_takeWhile cs, hrest⟩

theorem FretMap.remap_number (m : FretMap) {digits rest : List Char} (hne : digits ≠ [])
    (hdigits : Numeral.AreDigits digits) (hrest : Numeral.EndsDigits rest) :
    m.remap (String.ofList (digits ++ rest)) =
      m.lookup (String.ofList digits) ++ String.ofList rest := by
  obtain ⟨htake, hdrop⟩ := Numeral.span_digits hdigits hrest
  obtain ⟨d, ds, rfl⟩ := List.exists_cons_of_ne_nil hne
  simp only [remap, String.toList_ofList, htake, hdrop]

theorem FretMap.remap_other (m : FretMap) {fret : String} (h : Numeral.EndsDigits fret.toList) :
    m.remap fret = m.lookup fret := by
  have hnone : Numeral.AreDigits [] := nofun
  have htake := (Numeral.span_digits hnone h).1
  rw [List.nil_append] at htake
  simp only [remap, htake]

/-- What is printed for a sign: the target of the last pair for it, or the sign itself if there is
none. -/
inductive PrintsSign (pairs : List (String × String)) (sign : String) : String → Prop where
  | target {target : String} : IsLastFor pairs sign target → PrintsSign pairs sign target
  | same : (∀ p ∈ pairs, p.1 ≠ sign) → PrintsSign pairs sign sign

/-- What is printed for a fret: if it begins with digits, what is printed for all of these, and
what follows them as it is; otherwise what is printed for the whole. -/
inductive PrintsFret (pairs : List (String × String)) : String → String → Prop where
  | number {digits rest : List Char} {text : String} : digits ≠ [] → Numeral.AreDigits digits →
    Numeral.EndsDigits rest → PrintsSign pairs (String.ofList digits) text →
    PrintsFret pairs (String.ofList (digits ++ rest)) (text ++ String.ofList rest)
  | other {fret text : String} : Numeral.EndsDigits fret.toList → PrintsSign pairs fret text →
    PrintsFret pairs fret text

namespace FretMap.Holds

variable {m : FretMap} {pairs : List (String × String)}

/-- An entry is found if and only if it is held. -/
theorem lookup_entries_eq_some_iff (h : m.Holds pairs) {sign target : String} :
    m.entries.lookup sign = some target ↔ IsLastFor pairs sign target := by
  have hheld {text : String} (ht : m.entries.lookup sign = some text) :
      IsLastFor pairs sign text := by
    obtain ⟨before, after, e, -⟩ := List.lookup_eq_some_iff.1 ht
    rw [← h.mem_iff, e]
    exact List.mem_append_right _ List.mem_cons_self
  refine ⟨hheld, fun hlast => ?_⟩
  cases ht : m.entries.lookup sign with
  | some text => rw [(hheld ht).unique hlast]
  | none =>
    have hne := List.lookup_eq_none_iff.1 ht _ ((h.mem_iff sign target).2 hlast)
    simp at hne

theorem lookup_eq_iff (h : m.Holds pairs) {sign text : String} :
    m.lookup sign = text ↔ PrintsSign pairs sign text := by
  have hnone : m.entries.lookup sign = none ↔ ∀ p ∈ pairs, p.1 ≠ sign := by
    simp only [Option.eq_none_iff_forall_ne_some, ne_eq, h.lookup_entries_eq_some_iff,
      ← not_exists, exists_isLastFor_iff]
    simp
  unfold lookup
  constructor
  · rintro rfl
    cases ht : m.entries.lookup sign with
    | some target => exact .target (h.lookup_entries_eq_some_iff.1 ht)
    | none => exact .same (hnone.1 ht)
  · rintro (hlast | hplain)
    · rw [h.lookup_entries_eq_some_iff.2 hlast, Option.getD_some]
    · rw [hnone.2 hplain, Option.getD_none]

theorem remap_eq_iff (h : m.Holds pairs) {fret text : String} :
    m.remap fret = text ↔ PrintsFret pairs fret text := by
  have hprints (sign : String) : PrintsSign pairs sign (m.lookup sign) := h.lookup_eq_iff.1 rfl
  constructor
  · rintro rfl
    obtain hother | ⟨digits, rest, e, hne, hdigits, hrest⟩ := Numeral.endsDigits_or fret.toList
    · rw [m.remap_other hother]
      exact .other hother (hprints fret)
    · obtain rfl : fret = String.ofList (digits ++ rest) := by rw [← e, String.ofList_toList]
      rw [m.remap_number hne hdigits hrest]
      exact .number hne hdigits hrest (hprints _)
  · intro hp
    cases hp with
    | number hne hdigits hrest ht => rw [m.remap_number hne hdigits hrest, h.lookup_eq_iff.2 ht]
    | other hother ht => rw [m.remap_other hother, h.lookup_eq_iff.2 ht]

end FretMap.Holds

/-! ## The line -/

variable {α : Type}

/-- A list that is obeyed is empty, or the map is made of the pairs that its words write. -/
theorem Layout.pairs_of_setFretMap {l k : Layout α} {list : String}
    (h : l.setFretMap list = .ok k) : Text.words list.toList = [] ∧ k = l ∨
      Text.words list.toList ≠ [] ∧ ∃ pairs,
        List.Forall₂ WritesFretPair (Text.words list.toList) pairs ∧
          k = { l with fretMap := .ofList pairs } := by
  rw [setFretMap_eq] at h
  split at h
  · rename_i hwords
    cases h
    exact .inl ⟨hwords, rfl⟩
  · rename_i hne
    obtain ⟨pairs, hpairs, rfl⟩ := map_eq_ok.1 h
    exact .inr ⟨hne, pairs, (forall₂_of_mapM hpairs).imp fun _ _ => readFretPair_eq_ok_iff.1, rfl⟩

variable [Scalar α]

namespace Score

/-- What a line with a list of signs does. If each of its words is a pair it is obeyed, and if it
has a word the map in force afterwards holds the pairs that they write and nothing else; what is
printed for a fret follows from them. If one is no pair, or there is none, the score stays as it
is. -/
theorem feed_fretMap (s : Score α) (line : Nat) (list : String) :
    ((s.feed ⟨line, .fretMap list⟩).2 = none ↔ ∀ word ∈ Text.words list.toList, IsFretPair word) ∧
    ((s.feed ⟨line, .fretMap list⟩).2 ≠ none ∨ (∀ c ∈ list.toList, Text.isBlank c = true) →
      (s.feed ⟨line, .fretMap list⟩).1 = s) ∧
    ((s.feed ⟨line, .fretMap list⟩).2 = none → (∃ c ∈ list.toList, Text.isBlank c = false) →
      ∃ pairs m, List.Forall₂ WritesFretPair (Text.words list.toList) pairs ∧ m.Holds pairs ∧
        (s.feed ⟨line, .fretMap list⟩).1 = { s with layout := { s.layout with fretMap := m } } ∧
        (s.layout.mapFrets = true → ∀ fret text,
          (s.feed ⟨line, .fretMap list⟩).1.layout.fretText fret = text ↔
            PrintsFret pairs fret text)) := by
  rw [feed_of_isOffPage s rfl, ← Text.words_eq_nil_iff]
  simp only [Layout.obey]
  have hwords : (∃ c ∈ list.toList, Text.isBlank c = false) → Text.words list.toList ≠ [] := by
    simp [Text.words_eq_nil_iff]
  cases hset : s.layout.setFretMap list with
  | error r =>
    refine ⟨iff_of_false (by simp) fun h => ?_, fun _ => rfl, by simp⟩
    cases Layout.setFretMap_eq_error_iff.1 hset with
    | fretPair hfirst =>
      obtain ⟨hword, before, after, e, -⟩ := hfirst
      exact hword (h _ (e ▸ List.mem_append_right _ List.mem_cons_self))
  | ok k =>
    obtain ⟨hnil, rfl⟩ | ⟨hne, pairs, hpairs, rfl⟩ := Layout.pairs_of_setFretMap hset
    · refine ⟨iff_of_true rfl (by simp [hnil]), fun _ => rfl, fun _ h => absurd hnil (hwords h)⟩
    · have hall : ∀ word ∈ Text.words list.toList, IsFretPair word :=
        forall_right_of_forall₂ hpairs.flip fun _ _ => WritesFretPair.isFretPair
      have hholds := FretMap.holds_ofList pairs
      refine ⟨iff_of_true rfl hall, ?_, fun _ _ => ⟨pairs, _, hpairs, hholds, rfl, ?_⟩⟩
      · rintro (hfault | hnil)
        · exact absurd rfl hfault
        · exact absurd hnil hne
      · intro hmap fret text
        rw [Layout.fretText, if_pos hmap, hholds.remap_eq_iff]

/-- A list that gives ten twice, and one of whose targets has a dash: the cross that ten had been is
gone, and a hundred is no ten. A list with a word that is no pair leaves the cross. -/
theorem feed_fretMap_given_twice :
    let s : Score Rat := empty
    let list := " 10-A 1b-*\t10-x-y "
    (s.feed ⟨1, .fretMap list⟩).2 = none ∧ (∃ c ∈ list.toList, Text.isBlank c = false) ∧
      (∃ pairs, List.Forall₂ WritesFretPair (Text.words list.toList) pairs ∧
        PrintsFret pairs "10:." "x-y:." ∧ PrintsFret pairs "1b" "1b" ∧
        PrintsFret pairs "100" "100") ∧
      (s.feed ⟨1, .fretMap "10-A 11"⟩).2 ≠ none ∧
      (s.feed ⟨1, .fretMap "10-A 11"⟩).1.layout.fretText "10" = "X" := by
  intro s list
  have hread : (s.feed ⟨1, .fretMap list⟩).2 = none := by decide +kernel
  have hwords : ∃ c ∈ list.toList, Text.isBlank c = false := ⟨'A', by decide, by decide⟩
  have hfault : (s.feed ⟨1, .fretMap "10-A 11"⟩).2 ≠ none := by decide +kernel
  have hkept := (feed_fretMap s 1 "10-A 11").2.1 (.inl hfault)
  obtain ⟨pairs, m, hpairs, -, -, hprints⟩ := (feed_fretMap s 1 list).2.2 hread hwords
  refine ⟨hread, hwords, ⟨pairs, hpairs, ?_, ?_, ?_⟩, hfault, ?_⟩
  · exact (hprints rfl _ _).1 (by decide +kernel)
  · exact (hprints rfl _ _).1 (by decide +kernel)
  · exact (hprints rfl _ _).1 (by decide +kernel)
  · rw [hkept]
    decide +kernel

end Score

end Tablature
