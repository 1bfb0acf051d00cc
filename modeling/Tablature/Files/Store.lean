import Tablature.Files

/-!
# A store of files

A working directory as a value: files with their names, each name a row of parts.
Directories are what the names say they are. Paths are followed part by part from
the working directory; nothing is known of what lies above it.

- `FileStore.read`, `FileStore.write`: the content of a file, and the store with
  another content.
- `FileStore.access`: the store as the files of a system.
-/

namespace Tablature

/-- The files below a working directory, by the parts of their names. -/
structure FileStore where
  files : List (List String × ByteArray)

/-- A place that a path leads to: so many directories above the working directory, and
from there down along names. -/
structure Place where
  above : Nat
  names : List String
  deriving DecidableEq, Repr

/-- What stands at a place. -/
inductive Entry where
  | file (content : ByteArray)
  | directory
  | missing

namespace FileStore

/-- What stands at a place. Outside the working directory there are only the directories
above it. -/
def entry (s : FileStore) (p : Place) : Entry :=
  if p.names.isEmpty then .directory
  else if p.above != 0 then .missing
  else match s.files.lookup p.names with
    | some content => .file content
    | none =>
      if s.files.any fun f => p.names.isPrefixOf f.1 then .directory else .missing

/-- The parts of a path between its slashes. -/
def parts (path : String) : List String :=
  ((path.toList.splitOn '/').filter fun part => !part.isEmpty).map String.ofList

/-- Where a path begins: at the top if it starts with a slash, otherwise in the working
directory. -/
def start (path : String) : Place := ⟨if path.toList.head? = some '/' then 1 else 0, []⟩

/-- The place that a part leads to from a directory. -/
def enter (p : Place) (part : String) : Place :=
  if part = "." then p
  else if part = ".." then
    if p.names.isEmpty then { p with above := p.above + 1 } else { p with names := p.names.dropLast }
  else { p with names := p.names ++ [part] }

/-- The most bytes that a name can have. -/
def longestName : Nat := 255

/-- The most bytes that a path can have. -/
def longestPath : Nat := 4095

/-- Follows the parts of a path. Each has to be followed from a directory. -/
def follow (s : FileStore) (p : Place) : List String → Except FileError Place
  | [] => .ok p
  | part :: rest =>
    match s.entry p with
    | .file _ => .error .notADirectory
    | .missing => .error .notFound
    | .directory =>
      if longestName < part.utf8ByteSize then .error .nameTooLong
      else s.follow (enter p part) rest

/-- Whether a path ends in a slash, and so has to be a directory. -/
def endsInSlash (path : String) : Bool := path.toList.getLast? = some '/'

/-- The place of a path. -/
def resolve (s : FileStore) (path : String) : Except FileError Place :=
  if path.toList.contains '\x00' then .error .nullInPath
  else if path.isEmpty then .error .notFound
  else if longestPath < path.utf8ByteSize then .error .nameTooLong
  else s.follow (start path) (parts path)

/-- The content of a file. -/
def read (s : FileStore) (path : String) : Except FileError ByteArray := do
  let p ← s.resolve path
  match s.entry p with
  | .file content => if endsInSlash path then .error .notADirectory else .ok content
  | .directory => .error .isDirectory
  | .missing => .error .notFound

/-- The store with a file at a place, new or in place of the one that is there. -/
def put (s : FileStore) (names : List String) (content : ByteArray) : FileStore :=
  ⟨(names, content) :: s.files.filter fun f => f.1 != names⟩

/-- Writes a file, new or in place of the one that is there. No directory is made. -/
def write (s : FileStore) (path : String) (content : ByteArray) : Except FileError FileStore := do
  let p ← s.resolve path
  match s.entry p with
  | .directory => .error .isDirectory
  | .file _ | .missing =>
    if endsInSlash path then .error .isDirectory
    else if p.above != 0 then .error .notFound
    else .ok (s.put p.names content)

/-- The content of a file as a text. -/
def readText (s : FileStore) (path : String) : Except FileError String := do
  let content ← s.read path
  match String.fromUTF8? content with
  | some text => .ok text
  | none => .error .notText

/-- Whether a path names a file. -/
def isFile (s : FileStore) (path : String) : Bool := (s.read path).toBool

/-- The store as the files of a system. A write that fails changes nothing. -/
def access : FileAccess (StateM FileStore) where
  isFile path := return (← get).isFile path
  read path := return (← get).readText path
  write path text := do
    match (← get).write path text.toUTF8 with
    | .ok s => set s; return .ok ()
    | .error e => return .error e

end FileStore

end Tablature
