import Tablature.Files.Store
import Tablature.Proofs.Act

/-!
# What files promise

What a program may rely on when it asks for files, reads and writes: nothing changes
but by a write that succeeds, and such a write puts the whole text at the place of
its path and changes no other place. A store of files keeps to it, whatever files
are in it.

* `FileView`: where paths lead to, and what stands there;
* `FileView.Holds`, `FileView.Wrote`: a path that holds a text, and a path that a text
  has been written to;
* `FileAccess.Lawful`: what is promised;
* `lawful_access`: a store of files keeps the promise.
-/

namespace Tablature

/-- The files of a system from outside: the place that a path leads to, and the bytes of the file
that stands at a place, if one does. -/
structure FileView (σ ν : Type) where
  place? : σ → String → Option ν
  content? : σ → ν → Option ByteArray

namespace FileView

variable {σ ν : Type}

/-- A path leads to a file with this text. -/
def Holds (view : FileView σ ν) (s : σ) (path text : String) : Prop :=
  ∃ p, view.place? s path = some p ∧ view.content? s p = some text.toUTF8

/-- From one state to the other a text has been written, to the place of a path and nowhere
else. -/
def Wrote (view : FileView σ ν) (s : σ) (path text : String) (t : σ) : Prop :=
  ∃ p, view.place? s path = some p ∧ view.content? t p = some text.toUTF8 ∧
    ∀ q, q ≠ p → view.content? t q = view.content? s q

end FileView

/-- Files that can be relied on. -/
structure FileAccess.Lawful {σ ν : Type} (files : FileAccess (StateM σ)) (view : FileView σ ν) :
    Prop where
  isFile (s : σ) (path : String) : ((files.isFile path).run s).2 = s
  read (s : σ) (path : String) : ((files.read path).run s).2 = s
  holds_of_read {s t : σ} {path text : String} : (files.read path).run s = (.ok text, t) →
    view.Holds s path text
  write_error {s t : σ} {path text : String} {e : FileError} :
    (files.write path text).run s = (.error e, t) → t = s
  wrote_of_write {s t : σ} {path text : String} : (files.write path text).run s = (.ok (), t) →
    view.Wrote s path text t

namespace FileAccess.Lawful

variable {σ ν : Type} {files : FileAccess (StateM σ)} {view : FileView σ ν}
  (hfiles : files.Lawful view) {s : σ} {path text : String}

include hfiles

theorem run_isFile {found : Bool} (h : ((files.isFile path).run s).1 = found) :
    (files.isFile path).run s = (found, s) :=
  Prod.ext h (hfiles.isFile s path)

theorem run_read {r : Except FileError String} (h : ((files.read path).run s).1 = r) :
    (files.read path).run s = (r, s) :=
  Prod.ext h (hfiles.read s path)

theorem run_write_error {e : FileError} (h : ((files.write path text).run s).1 = .error e) :
    (files.write path text).run s = (.error e, s) :=
  Prod.ext h (hfiles.write_error (Prod.ext h rfl))

end FileAccess.Lawful

/-! ## Texts as bytes -/

theorem toUTF8_of_fromUTF8? {b : ByteArray} {text : String} (h : String.fromUTF8? b = some text) :
    text.toUTF8 = b := by
  unfold String.fromUTF8? at h
  split at h
  · cases h; rfl
  · cases h

/-! ## A store of files -/

namespace FileStore

/-- The bytes of the file at a place. -/
def content? (s : FileStore) (p : Place) : Option ByteArray :=
  match s.entry p with
  | .file content => some content
  | .directory | .missing => none

/-- A store from outside. -/
def view : FileView FileStore Place where
  place? s path := (s.resolve path).toOption
  content? := content?

/-- The file at a place is the one that the store has under its name. -/
theorem content?_eq (s : FileStore) (p : Place) :
    s.content? p = if p.names.isEmpty || p.above != 0 then none else s.files.lookup p.names := by
  unfold content? entry
  by_cases hnames : p.names.isEmpty = true
  · simp only [hnames, if_true, Bool.true_or]
  by_cases habove : (p.above != 0) = true
  · simp only [hnames, habove, if_true, Bool.or_true, Bool.false_eq_true, if_false]
  simp only [hnames, habove, Bool.or_self, Bool.false_eq_true, if_false]
  cases s.files.lookup p.names with
  | some content => rfl
  | none => cases s.files.any fun f => p.names.isPrefixOf f.1 <;> rfl

theorem entry_ne_directory {s : FileStore} {p : Place} {content : ByteArray}
    (h : s.content? p = some content) : s.entry p ≠ .directory := by
  intro hdirectory
  rw [content?, hdirectory] at h
  cases h

/-- Putting a file at a place leaves the other places alone. -/
theorem content?_put (s : FileStore) {p : Place} (content : ByteArray) (hnames : p.names ≠ [])
    (habove : p.above = 0) (q : Place) :
    (s.put p.names content).content? q = if q = p then some content else s.content? q := by
  rw [content?_eq, content?_eq]
  by_cases hq : (q.names.isEmpty || q.above != 0) = true
  · have hne : q ≠ p := by
      rintro rfl
      simp_all
    rw [if_pos hq, if_neg hne, if_pos hq]
  rw [if_neg hq, if_neg hq]
  have hp : q.names = p.names ↔ q = p := by
    refine ⟨fun h => ?_, congrArg Place.names⟩
    cases q
    cases p
    simp_all
  rw [put, lookup_put]
  simp only [hp]

/-- What is read is the file at the place of the path, if the path does not end in a slash. -/
theorem read_eq_ok_iff {s : FileStore} {path : String} {content : ByteArray} :
    s.read path = .ok content ↔
      ∃ p, s.resolve path = .ok p ∧ s.content? p = some content ∧ endsInSlash path = false := by
  unfold read
  rw [bind_eq_ok]
  refine exists_congr fun p => and_congr_right fun _ => ?_
  unfold content?
  cases s.entry p <;> cases endsInSlash path <;> simp

theorem names_ne_nil_of_entry {s : FileStore} {p : Place} (h : s.entry p ≠ .directory) :
    p.names ≠ [] := by
  intro hempty
  exact h (by simp [entry, hempty])

/-- A file that is written stands at the place of its path, which is below the working directory. -/
theorem write_eq_ok_iff {s t : FileStore} {path : String} {content : ByteArray} :
    s.write path content = .ok t ↔ ∃ p, s.resolve path = .ok p ∧ s.entry p ≠ .directory ∧
      endsInSlash path = false ∧ p.above = 0 ∧ s.put p.names content = t := by
  unfold write
  rw [bind_eq_ok]
  refine exists_congr fun p => and_congr_right fun _ => ?_
  by_cases habove : p.above = 0
  · cases s.entry p <;> cases endsInSlash path <;> simp [habove]
  · cases s.entry p <;> cases endsInSlash path <;> simp [habove]

theorem run_read (s : FileStore) (path : String) :
    (access.read path).run s = (s.readText path, s) := rfl

theorem run_write (s : FileStore) (path text : String) :
    (access.write path text).run s =
      match s.write path text.toUTF8 with
      | .ok t => (.ok (), t)
      | .error e => (.error e, s) := by
  unfold access
  simp only [StateT.run_bind, StateT.run_get, pure_bind]
  cases s.write path text.toUTF8 <;> rfl

/-- A store keeps what files promise. -/
theorem lawful_access : access.Lawful view where
  isFile _ _ := rfl
  read _ _ := rfl
  holds_of_read {s t path text} h := by
    obtain ⟨content, hread, h⟩ := bind_eq_ok.1 (congrArg Prod.fst h)
    obtain ⟨p, hp, hcontent, -⟩ := read_eq_ok_iff.1 hread
    refine ⟨p, toOption_eq_some.2 hp, ?_⟩
    split at h
    · rename_i htext
      cases h
      rw [toUTF8_of_fromUTF8? htext]
      exact hcontent
    · cases h
  write_error {s t path text e} h := by
    rw [run_write] at h
    split at h
    · cases h
    · cases h; rfl
  wrote_of_write {s t path text} h := by
    rw [run_write] at h
    split at h
    · rename_i u hwrite
      cases h
      obtain ⟨p, hp, hentry, -, habove, rfl⟩ := write_eq_ok_iff.1 hwrite
      have hput := s.content?_put text.toUTF8 (names_ne_nil_of_entry hentry) habove
      refine ⟨p, toOption_eq_some.2 hp, ?_, fun q hq => ?_⟩
      · exact (hput p).trans (if_pos rfl)
      · exact (hput q).trans (if_neg hq)
    · cases h

end FileStore

end Tablature
