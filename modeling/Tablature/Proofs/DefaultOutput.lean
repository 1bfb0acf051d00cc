import Tablature.Proofs.CommandLine
import Tablature.Proofs.Paths

/-!
# The output beside the input

Where no output is asked for, it is the path of the input with another extension. This is
another file, and the input stays as it is, unless the input has the extension of the
product already: then the product is written over its own source.

* `Files.HasExtension`: paths whose extension is the given one;
* `Files.withExtension_eq`, `withExtension_eq_self`: the path with another extension, and
  the paths that are their own;
* `CommandLine.AsksBeside`: arguments without an output;
* `CommandLine.run_beside`: when the input is still there after a run.
-/

namespace Tablature

namespace Files

/-! ## Extensions -/

/-- The path leads to a name with this extension: behind more than a single dot it ends in one more
and the extension. -/
def HasExtension (path extension : String) : Prop :=
  ∃ directory stem, HasName path directory (stem ++ '.' :: extension.toList) ∧
    stem ≠ [] ∧ stem ≠ ['.']

/-- The name of a file with another extension. -/
def renamed (name extension : List Char) : List Char :=
  if isDirectoryName (cutExtension name) then cutExtension name else stem name ++ '.' :: extension

variable {path extension : String} {directory name : List Char}

/-- What stands before the last dot of a name is its stem, if there is something. -/
theorem stem_eq {before after : List Char} (hne : before ≠ []) (hafter : '.' ∉ after) :
    stem (before ++ '.' :: after) = before ∧
      cutExtension (before ++ '.' :: after) = before ++ ['.'] := by
  have hcut : Text.CutsBehind '.' (before ++ '.' :: after) (before ++ ['.']) after :=
    ⟨by simp, .inr ⟨before, rfl⟩, hafter⟩
  have hrest := hcut.span_reverse.2
  rw [List.reverse_concat] at hrest
  obtain ⟨c, cs, hcs⟩ := List.exists_cons_of_ne_nil (List.reverse_eq_nil_iff.not.2 hne)
  have hbefore : before = (c :: cs).reverse := by rw [← hcs, List.reverse_reverse]
  rw [hcs] at hrest
  simp only [stem, cutExtension, hrest]
  exact ⟨hbefore.symm, by rw [List.reverse_cons, ← hbefore]⟩

/-- A name has something before its last dot, or it is its own stem. -/
theorem stem_cases (name : List Char) : (stem name = name ∧ cutExtension name = name) ∨
    ∃ before after, name = before ++ '.' :: after ∧ before ≠ [] ∧ '.' ∉ after := by
  obtain ⟨before, after, hcut⟩ := Text.exists_cutsBehind '.' name
  have hrest := hcut.span_reverse.2
  obtain rfl | ⟨front, rfl⟩ := hcut.before
  · exact .inl (by simp only [stem, cutExtension, hrest, List.reverse_nil, and_self])
  · by_cases hfront : front = []
    · subst hfront
      refine .inl ?_
      simp only [stem, cutExtension, hrest, List.nil_append, List.reverse_singleton, and_self]
    · exact .inr ⟨front, after, by simpa using hcut.text, hfront, hcut.after⟩

theorem withExtension_eq (h : HasName path directory name) :
    withExtension path extension = String.ofList (directory ++ renamed name extension.toList) := by
  simp only [withExtension, splitName_eq h, renamed]
  split
  · rfl
  · rw [List.append_assoc]

theorem isDirectoryName_concat_dot {before : List Char} (hne : before ≠ [])
    (hdot : before ≠ ['.']) : isDirectoryName (before ++ ['.']) = false := by
  have hone : before ++ ['.'] ≠ ['.'] := by rwa [ne_eq, List.append_left_eq_self]
  have htwo : before ++ ['.'] ≠ ['.', '.'] := by
    rwa [show ['.', '.'] = ['.'] ++ ['.'] from rfl, ne_eq, List.append_left_inj]
  simp [isDirectoryName, hone, htwo]

/-- A path that has the extension already stays the same. -/
theorem withExtension_eq_self (h : HasExtension path extension) (hdot : '.' ∉ extension.toList) :
    withExtension path extension = path := by
  obtain ⟨directory, before, hname, hne, hbefore⟩ := h
  obtain ⟨hstem, hcut⟩ := stem_eq hne hdot
  rw [withExtension_eq hname, renamed, hcut, isDirectoryName_concat_dot hne hbefore,
    if_neg Bool.false_ne_true, hstem, ← hname.text, String.ofList_toList]

/-- The name of a file with another extension is two dots, or the extension stands behind more than
a single dot, with which the name begins. -/
theorem renamed_cases (hname : isDirectoryName name = false) (extension : List Char) :
    renamed name extension = ['.', '.'] ∨ ∃ before after, name = before ++ after ∧ before ≠ [] ∧
      before ≠ ['.'] ∧ renamed name extension = before ++ '.' :: extension := by
  obtain ⟨hstem, hcut⟩ | ⟨before, after, rfl, hne, hafter⟩ := stem_cases name
  · refine .inr ⟨name, [], (List.append_nil _).symm, ?_, ?_, ?_⟩
    · rintro rfl
      cases hname
    · rintro rfl
      cases hname
    · rw [renamed, hcut, hname, hstem, if_neg Bool.false_ne_true]
  · obtain ⟨hstem, hcut⟩ := stem_eq hne hafter
    rw [renamed, hcut, hstem]
    by_cases hdot : before = ['.']
    · subst hdot
      exact .inl rfl
    · rw [isDirectoryName_concat_dot hne hdot, if_neg Bool.false_ne_true]
      exact .inr ⟨before, '.' :: after, rfl, hne, hdot, rfl⟩

/-- A path with another extension leads to the new name in the same directory. -/
theorem hasName_withExtension (h : HasName path directory name)
    (hname : isDirectoryName name = false) (hslash : '/' ∉ extension.toList) :
    HasName (withExtension path extension) directory (renamed name extension.toList) := by
  refine ⟨?_, h.before, ?_⟩
  · rw [withExtension_eq h, String.toList_ofList]
  · obtain heq | ⟨before, after, rfl, -, -, heq⟩ := renamed_cases hname extension.toList
    · rw [heq]
      decide
    · rw [heq]
      have hbefore := h.after
      simp only [List.mem_append, List.mem_cons, not_or] at hbefore ⊢
      exact ⟨hbefore.1, by decide, hslash⟩

theorem renamed_ne_nil {extension : List Char} (hname : isDirectoryName name = false) :
    renamed name extension ≠ [] := by
  obtain heq | ⟨before, after, -, -, -, heq⟩ := renamed_cases hname extension
  · rw [heq]
    decide
  · rw [heq]
    simp

/-- Only a name that has the extension already stays the same. -/
theorem hasExtension_of_renamed_eq (h : HasName path directory name)
    (hname : isDirectoryName name = false) (heq : renamed name extension.toList = name) :
    HasExtension path extension := by
  obtain hup | ⟨before, after, rfl, hne, hdot, hrenamed⟩ := renamed_cases hname extension.toList
  · rw [hup] at heq
    subst heq
    cases hname
  · rw [hrenamed] at heq
    exact ⟨directory, before, heq ▸ h, hne, hdot⟩

end Files

namespace FileStore

open Files

variable {s t : FileStore} {path extension : String} {content text : ByteArray}

/-- The name of a file is no name of a directory. -/
theorem isDirectoryName_of_read {directory name : List Char} (h : HasName path directory name)
    (hread : s.read path = .ok content) : isDirectoryName name = false := by
  obtain ⟨p, hp, hcontent, hslash⟩ := read_eq_ok_iff.1 hread
  have hne : name ≠ [] := by
    rintro rfl
    have htext := h.text
    rw [List.append_nil] at htext
    obtain hnil | ⟨front, hfront⟩ := h.before
    · obtain rfl : path = "" := by rw [← String.toList_eq_nil_iff, htext, hnil]
      cases hp
    · simp [endsInSlash, htext, hfront] at hslash
  obtain ⟨parent, -, hopen, hparent, rfl⟩ := exists_parent h hne hp
  obtain ⟨hdot, hup⟩ := ne_dots_of_entry_enter hopen hparent (entry_ne_directory hcontent)
  have hdot : name ≠ ['.'] := fun heq => hdot (heq ▸ rfl)
  have hup : name ≠ ['.', '.'] := fun heq => hup (heq ▸ rfl)
  simp [isDirectoryName, hne, hdot, hup]

/-- A file stays as it is when one is written beside it with another extension, if it does not have
that extension itself. -/
theorem read_of_write_withExtension (hslash : '/' ∉ extension.toList)
    (hread : s.read path = .ok content) (h : ¬ HasExtension path extension)
    (hwrite : s.write (withExtension path extension) text = .ok t) : t.read path = .ok content := by
  obtain ⟨directory, name, hname⟩ := Text.exists_cutsBehind '/' path.toList
  have hfile := isDirectoryName_of_read hname hread
  have hne : name ≠ [] := by
    rintro rfl
    cases hfile
  obtain ⟨p, q, hp, hentry, hq, hafter⟩ := read_of_write hwrite hread
  have hplace : p ≠ q := by
    refine place_ne hname (hasName_withExtension hname hfile hslash) hne (renamed_ne_nil hfile) ?_
      hp hq hentry
    exact fun heq => h (hasExtension_of_renamed_eq hname hfile heq.symm)
  rw [hafter, if_neg hplace]

/-- A file that is written over holds what has been written. -/
theorem read_of_write_self (hread : s.read path = .ok content)
    (hwrite : s.write path text = .ok t) : t.read path = .ok text := by
  obtain ⟨p, q, hp, -, hq, hafter⟩ := read_of_write hwrite hread
  rw [hp] at hq
  cases hq
  rw [hafter, if_pos rfl]

end FileStore

namespace CommandLine

open Files

/-! ## Runs -/

/-- Arguments that name an input and no output, and the product that they ask for. -/
inductive AsksBeside : List String → Product → String → Prop where
  | postscript {input : String} : input ≠ "--yaml" → AsksBeside [input] .postscript input
  | yaml {input : String} : AsksBeside ["--yaml", input] .yaml input

theorem AsksBeside.asks {arguments : List String} {product : Product} {input : String}
    (h : AsksBeside arguments product input) :
    Asks arguments product input (withExtension input product.extension) := by
  cases h with
  | postscript h => exact .postscript h
  | yaml => exact .yaml

theorem Product.extension_plain (product : Product) :
    '/' ∉ product.extension.toList ∧ '.' ∉ product.extension.toList := by
  cases product <;> decide

theorem exists_read_of_readText {s : FileStore} {path source : String}
    (h : s.readText path = .ok source) : ∃ content, s.read path = .ok content := by
  obtain ⟨content, hread, -⟩ := bind_eq_ok.1 h
  exact ⟨content, hread⟩

theorem run_write_eq_ok_iff {s t : FileStore} {path text : String} :
    (FileStore.access.write path text).run s = (.ok (), t) ↔
      s.write path text.toUTF8 = .ok t := by
  rw [FileStore.run_write]
  cases s.write path text.toUTF8 with
  | ok u => exact ⟨fun h => by cases h; rfl, fun h => by cases h; rfl⟩
  | error e => exact ⟨nofun, nofun⟩

/-- A request to write over a source that can be read, and has a product, is carried out. -/
theorem exists_ends_self {serialize : Yaml.Serializer} {s : FileStore} {product : Product} {input source text : String}
    (hread : s.readText input = .ok source) (hmake : product.fromLibrary serialize source = .ok text) :
    ∃ o t, Ends serialize FileStore.access product input input s o t ∧ o.status = 0 ∧
      t.read input = .ok text.toUTF8 := by
  obtain ⟨content, hcontent⟩ := exists_read_of_readText hread
  obtain ⟨t, hwrite⟩ := FileStore.exists_write_of_read hcontent text.toUTF8
  have hfile : s.isFile input = true := by rw [FileStore.isFile, hcontent, Except.toBool]
  refine ⟨_, t, .wrote (Prod.ext hfile rfl) ?_ hmake (run_write_eq_ok_iff.2 hwrite), rfl,
    FileStore.read_of_write_self hcontent hwrite⟩
  rw [FileStore.run_read, hread]

/-- Where no output is asked for, the input stays as it is, unless it has the extension of the
product. If it has, the run writes the product over it, if there is one; and a run that fails
changes nothing. -/
theorem run_beside {arguments : List String} {product : Product} {input : String}
    (h : AsksBeside arguments product input) (serialize : Yaml.Serializer) (s : FileStore) :
    let r := (run serialize FileStore.access arguments).run s
    (¬ HasExtension input product.extension → r.2.read input = s.read input) ∧
    (HasExtension input product.extension → ∀ source text, s.readText input = .ok source →
      product.fromLibrary serialize source = .ok text →
      r.1.status = 0 ∧ r.2.read input = .ok text.toUTF8) ∧
    (r.1.status ≠ 0 → r.2 = s) := by
  obtain ⟨hslash, hdot⟩ := product.extension_plain
  obtain ⟨o, t, hends⟩ := exists_ends FileStore.lawful_access serialize product input
    (withExtension input product.extension) s
  have hrun := hends.run_eq h.asks
  intro r
  have hr : r = (o, t) := hrun
  rw [hr]
  refine ⟨fun hother => ?_, fun hself source text hread hmake => ?_, fun hstatus => ?_⟩
  · cases hends with
    | wrote _ hread _ hwrite =>
      obtain ⟨content, hcontent⟩ := exists_read_of_readText (congrArg Prod.fst hread)
      rw [hcontent]
      exact FileStore.read_of_write_withExtension hslash hcontent hother
        (run_write_eq_ok_iff.1 hwrite)
    | _ => rfl
  · obtain ⟨o', t', hends', hafter⟩ := exists_ends_self hread hmake
    have hasks := h.asks
    rw [withExtension_eq_self hself hdot] at hasks
    rw [← hrun, hends'.run_eq hasks]
    exact hafter
  · exact hends.eq_of_status hstatus

/-- A source in a file that is named for a program: compiled, it is written over, while its YAML is
another file. -/
theorem run_beside_program :
    let s : FileStore := ⟨[(["a.ps"], "P-1".toUTF8)]⟩
    let run (arguments : List String) := (run Yaml.printer FileStore.access arguments).run s
    (∃ text, Product.postscript.fromLibrary Yaml.printer "P-1" = .ok text ∧ (run ["a.ps"]).1.status = 0 ∧
      (run ["a.ps"]).2.read "a.ps" = .ok text.toUTF8) ∧
    (run ["--yaml", "a.ps"]).1.status = 0 ∧
    (run ["--yaml", "a.ps"]).2.read "a.ps" = s.read "a.ps" := by
  intro s run
  have hread : (s.readText "a.ps").toOption = some "P-1" := by decide +kernel
  have hmake : (Product.postscript.fromLibrary Yaml.printer "P-1").toOption.isSome = true := by decide +kernel
  obtain ⟨text, hmake⟩ := Option.isSome_iff_exists.1 hmake
  have hmake := toOption_eq_some.1 hmake
  have hself : HasExtension "a.ps" "ps" :=
    ⟨[], ['a'], ⟨rfl, .inl rfl, by decide⟩, by decide, by decide⟩
  have hother : ¬ HasExtension "a.ps" "yaml" := by
    rintro ⟨directory, before, h, -, -⟩
    have hsuffix : "yaml".toList <:+ "a.ps".toList :=
      ⟨directory ++ before ++ ['.'], by rw [h.text]; simp⟩
    exact absurd hsuffix (by decide)
  have hflag : "a.ps" ≠ "--yaml" := by decide
  have hplain := run_beside (AsksBeside.postscript hflag) Yaml.printer s
  have hyaml := run_beside (AsksBeside.yaml : AsksBeside ["--yaml", "a.ps"] .yaml "a.ps") Yaml.printer s
  refine ⟨⟨text, hmake, ?_⟩, by decide +kernel, hyaml.1 hother⟩
  exact hplain.2.1 hself "P-1" text (toOption_eq_some.1 hread) hmake

/-- The same source is not what the file holds after the run. -/
theorem exists_input_written_over :
    let s : FileStore := ⟨[(["a.ps"], "P-1".toUTF8)]⟩
    AsksBeside ["a.ps"] .postscript "a.ps" ∧ s.isFile "a.ps" = true ∧
      ((run Yaml.printer FileStore.access ["a.ps"]).run s).2.read "a.ps" ≠ s.read "a.ps" := by
  intro s
  refine ⟨.postscript (by decide), by decide +kernel, fun hsame => ?_⟩
  have hchanged : (((run Yaml.printer FileStore.access ["a.ps"]).run s).2.read "a.ps").toOption ≠
      (s.read "a.ps").toOption := by
    decide +kernel
  exact hchanged (congrArg Except.toOption hsame)

end CommandLine

end Tablature
