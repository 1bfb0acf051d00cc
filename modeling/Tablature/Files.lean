/-!
# Files

What a program does with files, for any system that has them: asking whether a path
names a file, reading a text and writing one.

- `Files.withExtension`: the path with another extension.
- `stem_append`: a name is its stem and what was cut off.
-/

namespace Tablature

/-- Why a path cannot be read or written. -/
inductive FileError where
  | notFound
  | isDirectory
  | notADirectory
  /-- The bytes are no UTF-8 text. -/
  | notText
  /-- The path holds a null character. -/
  | nullInPath
  /-- The path or a part of it is longer than the system takes. -/
  | nameTooLong
  /-- Any other answer of the system. -/
  | other (message : String)
  deriving DecidableEq, Repr

def FileError.message : FileError → String
  | notFound => "No such file or directory (os error 2)"
  | isDirectory => "Is a directory (os error 21)"
  | notADirectory => "Not a directory (os error 20)"
  | notText => "stream did not contain valid UTF-8"
  | nullInPath => "file name contained an unexpected NUL byte"
  | nameTooLong => "File name too long (os error 36)"
  | other message => message

/-- The files of a system. -/
structure FileAccess (m : Type → Type) where
  isFile : String → m Bool
  read : String → m (Except FileError String)
  write : String → String → m (Except FileError Unit)

namespace Files

/-- Cuts a path into the part up to its last slash and the name after it. -/
def splitName (path : List Char) : List Char × List Char :=
  let name := (path.reverse.takeWhile (· != '/')).reverse
  (path.take (path.length - name.length), name)

/-- The name up to its last dot, if that is not its first character. -/
def stem (name : List Char) : List Char :=
  match name.reverse.dropWhile (· != '.') with
  | _ :: c :: cs => (c :: cs).reverse
  | _ => name

/-- The stem is the beginning of the name. -/
theorem stem_append (name : List Char) : ∃ cut, stem name ++ cut = name := by
  unfold stem
  split
  · rename_i d c cs h
    refine ⟨d :: (name.reverse.takeWhile (· != '.')).reverse, ?_⟩
    have e := List.takeWhile_append_dropWhile (p := (· != '.')) (l := name.reverse)
    rw [h] at e
    simpa using congrArg List.reverse e
  · exact ⟨[], List.append_nil _⟩

/-- The names that lead to a directory and never to a file. -/
def isDirectoryName (name : List Char) : Bool :=
  name.isEmpty || name == ['.'] || name == ['.', '.']

/-- The name without its extension, but with the dot before it. -/
def cutExtension (name : List Char) : List Char :=
  match name.reverse.dropWhile (· != '.') with
  | d :: c :: cs => (d :: c :: cs).reverse
  | _ => name

/-- The path of a file with another extension in place of the last one; the rest of the path
stays. Where nothing is left of a name but two dots, these lead to the directory above, which has
no extension. -/
def withExtension (path extension : String) : String :=
  let (directory, name) := splitName path.toList
  let cut := cutExtension name
  if isDirectoryName cut then String.ofList (directory ++ cut)
  else String.ofList (directory ++ stem name ++ '.' :: extension.toList)

example : withExtension "d.e/a.b.sanz" "ps" = "d.e/a.b.ps" := by decide +kernel

example : withExtension ".sanz" "ps" = ".sanz.ps" := by decide +kernel

example : withExtension "d/..sanz" "ps" = "d/.." := by decide +kernel

end Files

end Tablature
