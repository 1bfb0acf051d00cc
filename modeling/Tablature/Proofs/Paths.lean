import Tablature.Proofs.Files

/-!
# Where paths lead

A path is a name behind a directory. Two names in the same directory are two places, if
they are names at all and not dots that lead back up; and a file that is written somewhere
leads no other path astray, since a path goes through directories alone and none of
these is written over.

* `Text.CutsBehind`, `Files.HasName`: a text cut behind its last character of a kind, and a
  path as its directory and its name;
* `FileStore.resolve_eq_ok_iff`: a path is resolved by entering its name from the place of
  its directory;
* `FileStore.IsOpen`: places that are reached through directories, as that of every path;
* `FileStore.resolve_put`, `FileStore.read_put`: what a written file leaves as it was.
-/

namespace Tablature

/-! ## Names -/

namespace Text

/-- The text is cut behind its last `d`, or before everything if it has none. -/
structure CutsBehind (d : Char) (text before after : List Char) : Prop where
  text : text = before ++ after
  before : before = [] ∨ ∃ front, before = front ++ [d]
  after : d ∉ after

variable {d : Char} {text before after : List Char}

theorem exists_cutsBehind (d : Char) (text : List Char) :
    ∃ before after, CutsBehind d text before after := by
  by_cases hmem : d ∈ text
  · obtain ⟨behind, front, htext, hbehind⟩ := List.eq_append_cons_of_mem (List.mem_reverse.2 hmem)
    refine ⟨front.reverse ++ [d], behind.reverse, ?_, .inr ⟨_, rfl⟩, by simpa using hbehind⟩
    rw [← List.reverse_reverse text, htext]
    simp
  · exact ⟨[], text, rfl, .inl rfl, hmem⟩

/-- Read from its end, the text goes on to its last `d`, and then with the part before. -/
theorem CutsBehind.span_reverse (h : CutsBehind d text before after) :
    text.reverse.takeWhile (· != d) = after.reverse ∧
      text.reverse.dropWhile (· != d) = before.reverse := by
  have hafter : ∀ c ∈ after.reverse, (c != d) = true := by
    intro c hc
    rw [bne_iff_ne]
    rintro rfl
    exact h.after (List.mem_reverse.1 hc)
  have hbefore : ∀ c ∈ before.reverse.head?, (c != d) = false := by
    obtain rfl | ⟨front, rfl⟩ := h.before
    · nofun
    · simp
  rw [h.text, List.reverse_append]
  exact span_append hafter hbefore

end Text

namespace Files

/-- The path leads to a name in a directory, which is written up to its slash, or not at all. -/
abbrev HasName (path : String) (directory name : List Char) : Prop :=
  Text.CutsBehind '/' path.toList directory name

theorem splitName_eq {path : String} {directory name : List Char}
    (h : HasName path directory name) : splitName path.toList = (directory, name) := by
  rw [splitName, h.span_reverse.1, List.reverse_reverse, h.text]
  simp

end Files

namespace FileStore

open Files

variable {s t : FileStore} {p q : Place} {path : String} {directory name : List Char}

/-! ## Following -/

theorem follow_append (xs ys : List String) :
    s.follow p (xs ++ ys) = (s.follow p xs).bind fun p => s.follow p ys := by
  induction xs generalizing p with
  | nil => rfl
  | cons x xs ih =>
    simp only [List.cons_append, follow, ih]
    cases s.entry p with
    | directory => simp only; split <;> rfl
    | _ => rfl

/-- A part is entered from a directory. -/
theorem follow_cons_eq_ok {part : String} {rest : List String} :
    s.follow p (part :: rest) = .ok q ↔ s.entry p = .directory ∧
      part.utf8ByteSize ≤ longestName ∧ s.follow (enter p part) rest = .ok q := by
  rw [follow]
  cases s.entry p with
  | directory =>
    simp only [true_and]
    split
    · rename_i hlong
      simp [Nat.not_le.2 hlong]
    · rename_i hlong
      simp [Nat.not_lt.1 hlong]
  | _ => simp

/-- All places above this one are directories. -/
def IsOpen (s : FileStore) (p : Place) : Prop :=
  ∀ names, names <+: p.names → names ≠ p.names → s.entry ⟨p.above, names⟩ = .directory

theorem isOpen_top (s : FileStore) (above : Nat) : s.IsOpen ⟨above, []⟩ :=
  fun _ hnames hne => absurd (List.prefix_nil.1 hnames) hne

theorem ne_of_prefix_dropLast {β : Type} {xs ys : List β} (h : ys <+: xs.dropLast) (hne : xs ≠ []) :
    ys ≠ xs := by
  rintro rfl
  have hlength := h.length_le
  have hpos := List.length_pos_iff.2 hne
  rw [List.length_dropLast] at hlength
  omega

namespace IsOpen

/-- Two dots lead to a directory. -/
theorem entry_enter_up (hp : s.IsOpen p) : s.entry (enter p "..") = .directory := by
  rw [enter, if_neg (by decide), if_pos rfl]
  split
  · rename_i hnames
    simp [entry, hnames]
  · rename_i hnames
    have hne : p.names ≠ [] := by simpa using hnames
    exact hp _ (List.dropLast_prefix _) (ne_of_prefix_dropLast (List.prefix_refl _) hne)

theorem enter (hp : s.IsOpen p) (hdirectory : s.entry p = .directory) (part : String) :
    s.IsOpen (enter p part) := by
  unfold FileStore.enter
  split
  · exact hp
  split
  · split
    · rename_i hnames
      obtain ⟨above, names⟩ := p
      obtain rfl : names = [] := by simpa using hnames
      exact isOpen_top s _
    · rename_i hnames
      have hne : p.names ≠ [] := by simpa using hnames
      intro names hbegins _
      exact hp names (hbegins.trans (List.dropLast_prefix _)) (ne_of_prefix_dropLast hbegins hne)
  · intro names hbegins hne
    have hbegins := (List.prefix_concat_iff.1 hbegins).resolve_left hne
    by_cases hself : names = p.names
    · rw [hself]
      exact hdirectory
    · exact hp names hbegins hself

/-- A path that can be followed leads through directories. -/
theorem follow (hp : s.IsOpen p) {parts : List String} (h : s.follow p parts = .ok q) :
    s.IsOpen q := by
  induction parts generalizing p with
  | nil => cases h; exact hp
  | cons part rest ih =>
    obtain ⟨hdirectory, -, h⟩ := follow_cons_eq_ok.1 h
    exact ih (hp.enter hdirectory part) h

end IsOpen

section

variable {parent : Place} (h : s.IsOpen parent) (hparent : s.entry parent = .directory)
  {part other : String} (hpart : s.entry (enter parent part) ≠ .directory)

include h hparent hpart

/-- A part that leads from a directory to something else is no dots. -/
theorem ne_dots_of_entry_enter : part ≠ "." ∧ part ≠ ".." := by
  constructor
  · rintro rfl
    exact hpart (by rwa [enter, if_pos rfl])
  · rintro rfl
    exact hpart h.entry_enter_up

/-- No other part leads to the same place. -/
theorem enter_ne_enter (hne : part ≠ other) : enter parent part ≠ enter parent other := by
  obtain ⟨hdot, hup⟩ := ne_dots_of_entry_enter h hparent hpart
  intro heq
  have hnames := congrArg Place.names heq
  rw [enter, if_neg hdot, if_neg hup] at hnames
  unfold enter at hnames
  split at hnames
  · simp at hnames
  split at hnames
  · -- this is no further down than the directory
    have hlength := congrArg List.length hnames
    split at hlength
    · rename_i hempty
      simp [List.isEmpty_iff.1 hempty] at hlength
    · simp only [List.length_append, List.length_singleton, List.length_dropLast] at hlength
      omega
  · exact hne (by simpa using hnames)

end

/-! ## The name of a path -/

/-- The paths that the system takes. -/
def IsTaken (path : String) : Prop :=
  '\x00' ∉ path.toList ∧ path ≠ "" ∧ path.utf8ByteSize ≤ longestPath

theorem resolve_eq_ok_iff : s.resolve path = .ok p ↔
    IsTaken path ∧ s.follow (start path) (parts path) = .ok p := by
  unfold resolve IsTaken
  by_cases hnull : '\x00' ∈ path.toList
  · simp [hnull]
  by_cases hempty : path = ""
  · simp [hempty]
  by_cases hlong : longestPath < path.utf8ByteSize
  · simp [hnull, hempty, hlong, Nat.not_le.2 hlong]
  · simp [hnull, hempty, hlong, Nat.not_lt.1 hlong]

theorem start_eq (h : HasName path directory name) :
    start path = start (String.ofList directory) := by
  have hname : name.head? ≠ some '/' := fun hhead => h.after (List.mem_of_head? hhead)
  have hhead : path.toList.head? = some '/' ↔ directory.head? = some '/' := by
    rw [h.text]
    cases directory with
    | nil => simpa using hname
    | cons c directory => rfl
  simp only [start, String.toList_ofList, hhead]

theorem parts_eq (h : HasName path directory name) (hne : name ≠ []) :
    parts path = parts (String.ofList directory) ++ [String.ofList name] := by
  have hsplit : (path.toList.splitOn '/').filter (fun part => !part.isEmpty) =
      (directory.splitOn '/').filter (fun part => !part.isEmpty) ++ [name] := by
    obtain hnil | ⟨names, hnames⟩ := h.before
    · rw [h.text, hnil, List.nil_append, List.splitOn_eq_singleton h.after]
      simp [hne]
    · rw [h.text, hnames, List.append_assoc, List.singleton_append, List.splitOn_append_cons_self,
        List.splitOn_append_cons_self, List.splitOn_eq_singleton h.after]
      simp [hne]
  simp only [parts, hsplit, String.toList_ofList, List.map_append, List.map_cons, List.map_nil]

/-- A path that can be resolved is the directory that its own directory leads to, and its name
entered from there. -/
theorem exists_parent (h : HasName path directory name) (hne : name ≠ [])
    (hp : s.resolve path = .ok p) : ∃ parent,
      s.follow (start (String.ofList directory)) (parts (String.ofList directory)) = .ok parent ∧
      s.IsOpen parent ∧ s.entry parent = .directory ∧ enter parent (String.ofList name) = p := by
  obtain ⟨-, hp⟩ := resolve_eq_ok_iff.1 hp
  rw [start_eq h, parts_eq h hne, follow_append] at hp
  obtain ⟨parent, hparent, hp⟩ := bind_eq_ok.1 hp
  obtain ⟨hdirectory, -, hp⟩ := follow_cons_eq_ok.1 hp
  cases hp
  exact ⟨parent, hparent, (isOpen_top s _).follow hparent, hdirectory, rfl⟩

/-- Two names in a directory are two places, if one of them is not that of a directory. -/
theorem place_ne {other : String} {name' : List Char} (h : HasName path directory name)
    (h' : HasName other directory name') (hnil : name ≠ []) (hnil' : name' ≠ [])
    (hne : name ≠ name') (hp : s.resolve path = .ok p) (hq : s.resolve other = .ok q)
    (hfile : s.entry p ≠ .directory) : p ≠ q := by
  obtain ⟨parent, hparent, hopen, hdirectory, rfl⟩ := exists_parent h hnil hp
  obtain ⟨parent', hparent', -, -, rfl⟩ := exists_parent h' hnil' hq
  rw [hparent] at hparent'
  cases hparent'
  exact enter_ne_enter hopen hdirectory hfile fun heq => hne (String.ofList_injective heq)

/-! ## Writing -/

theorem entry_eq_directory_iff : s.entry p = .directory ↔ p.names = [] ∨
    p.above = 0 ∧ s.files.lookup p.names = none ∧ ∃ f ∈ s.files, p.names <+: f.1 := by
  unfold entry
  by_cases hnil : p.names = []
  · simp [hnil]
  by_cases habove : p.above = 0
  · cases s.files.lookup p.names <;> simp [hnil, habove]
  · simp [hnil, habove]

section

variable (hfile : s.entry q ≠ .directory) (habove : q.above = 0) (content : ByteArray)

include hfile habove

/-- A file that is written takes the place of no directory, so all of them stay. -/
theorem entry_put (hp : s.entry p = .directory) : (s.put q.names content).entry p = .directory := by
  have hne : p ≠ q := by
    rintro rfl
    exact hfile hp
  obtain hnil | ⟨hp₀, hlookup, f, hf, hbegins⟩ := entry_eq_directory_iff.1 hp
  · exact entry_eq_directory_iff.2 (.inl hnil)
  have hnames : p.names ≠ q.names := by
    intro hnames
    cases p
    cases q
    simp_all
  refine entry_eq_directory_iff.2 (.inr ⟨hp₀, ?_, ?_⟩)
  · rw [put, lookup_put, if_neg hnames, hlookup]
  · by_cases hself : f.1 = q.names
    · exact ⟨(q.names, content), List.mem_cons_self, hself ▸ hbegins⟩
    · exact ⟨f, List.mem_cons_of_mem _ (List.mem_filter.2 ⟨hf, by simpa using hself⟩), hbegins⟩

theorem follow_put {parts : List String} {p' : Place} (h : s.follow p parts = .ok p') :
    (s.put q.names content).follow p parts = .ok p' := by
  induction parts generalizing p with
  | nil => exact h
  | cons part rest ih =>
    obtain ⟨hdirectory, hlength, h⟩ := follow_cons_eq_ok.1 h
    exact follow_cons_eq_ok.2 ⟨entry_put hfile habove content hdirectory, hlength, ih h⟩

theorem resolve_put (h : s.resolve path = .ok p) :
    (s.put q.names content).resolve path = .ok p := by
  obtain ⟨hpath, h⟩ := resolve_eq_ok_iff.1 h
  exact resolve_eq_ok_iff.2 ⟨hpath, follow_put hfile habove content h⟩

/-- A file that is written is read where it stands, and any other file as before. -/
theorem read_put {before : ByteArray} (hread : s.read path = .ok before)
    (hp : s.resolve path = .ok p) :
    (s.put q.names content).read path = .ok (if p = q then content else before) := by
  obtain ⟨p', hp', hcontent, hslash⟩ := read_eq_ok_iff.1 hread
  rw [hp] at hp'
  cases hp'
  refine read_eq_ok_iff.2 ⟨p, resolve_put hfile habove content hp, ?_, hslash⟩
  rw [content?_put s content (names_ne_nil_of_entry hfile) habove, hcontent]
  split <;> rfl

end

/-- After a write, a file that could be read can still be read. It is the one that was written if
the two paths lead to the same place, and otherwise what it was. -/
theorem read_of_write {output : String} {before content : ByteArray}
    (hwrite : s.write output content = .ok t) (hread : s.read path = .ok before) :
    ∃ p q, s.resolve path = .ok p ∧ s.entry p ≠ .directory ∧ s.resolve output = .ok q ∧
      t.read path = .ok (if p = q then content else before) := by
  obtain ⟨q, hq, hfile, -, habove, rfl⟩ := write_eq_ok_iff.1 hwrite
  obtain ⟨p, hp, hcontent, -⟩ := read_eq_ok_iff.1 hread
  exact ⟨p, q, hp, entry_ne_directory hcontent, hq, read_put hfile habove content hread hp⟩

/-- A file that can be read can be written. -/
theorem exists_write_of_read {before : ByteArray} (hread : s.read path = .ok before)
    (content : ByteArray) : ∃ t, s.write path content = .ok t := by
  obtain ⟨p, hp, hcontent, hslash⟩ := read_eq_ok_iff.1 hread
  refine ⟨_, write_eq_ok_iff.2 ⟨p, hp, entry_ne_directory hcontent, hslash, ?_, rfl⟩⟩
  rw [content?_eq, Option.ite_none_left_eq_some] at hcontent
  have hplace := hcontent.1
  simp only [Bool.or_eq_true, bne_iff_ne, ne_eq, not_or, Decidable.not_not] at hplace
  exact hplace.2

end FileStore

end Tablature
