import Tablature.CommandLine

/-!
# The program

The files of the operating system, and the standard error channel.
-/

namespace Tablature.System

/-- What the system answers, in the words of the library. -/
def fileError : IO.Error → FileError
  | .noFileOrDirectory .. => .notFound
  | .inappropriateType _ 20 _ => .notADirectory
  | .inappropriateType _ 21 _ => .isDirectory
  | .invalidArgument _ 36 _ => .nameTooLong
  | .permissionDenied _ code details | .invalidArgument _ code details
  | .resourceExhausted _ code details | .otherError code details =>
    .other (details ++ " (os error " ++ toString code ++ ")")
  | e => .other (toString e)

/-- Whether a path names a file of the system. -/
def isFile (path : String) : IO Bool := do
  try
    let metadata ← (← IO.FS.realPath path).metadata
    return metadata.type matches .file
  catch _ => return false

def read (path : String) : IO (Except FileError String) := do
  try
    let handle ← IO.FS.Handle.mk path .read
    match String.fromUTF8? (← handle.readBinToEnd) with
    | some text => return .ok text
    | none => return .error .notText
  catch e => return .error (fileError e)

def write (path text : String) : IO (Except FileError Unit) := do
  try
    let handle ← IO.FS.Handle.mk path .write
    handle.write text.toUTF8
    return .ok ()
  catch e => return .error (fileError e)

/-- The files of the operating system. -/
def files : FileAccess IO := ⟨isFile, read, write⟩

end Tablature.System

open Tablature in
def main (arguments : List String) : IO UInt32 := do
  let outcome ← CommandLine.run Yaml.printer System.files arguments
  for message in outcome.messages do
    IO.eprintln message
  return outcome.status.toUInt32
