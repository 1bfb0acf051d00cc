import Tablature.Compile
import Tablature.Outline
import Tablature.Files

/-!
# The command line

Compiling files, for any system that has them and any serializer of data. The program
writes its messages to one channel and answers with a status; it writes one file, and
only when it succeeds.

- `compileFile`: the program of a source file.
- `CommandLine.run`: the whole program.
-/

namespace Tablature

/-- Why nothing is made of a source or of a file. -/
inductive Failure where
  | unreadable (path : String) (cause : FileError)
  | stopped (s : Stop Float)
  /-- The serializer has refused the document. -/
  | unserializable (reason : String)

def Failure.message : Failure → String
  | unreadable path cause => "Cannot read '" ++ path ++ "': " ++ cause.message
  | stopped s => s.message
  | unserializable reason => "Cannot serialise document: " ++ reason

/-- The PostScript program of a source file. -/
def compileFile {m : Type → Type} [Monad m] (files : FileAccess m) (path : String) :
    m (Except Failure String) := do
  match ← files.read path with
  | .error e => return .error (.unreadable path e)
  | .ok source => return (compile source).mapError .stopped

/-- The document as YAML, or the failure of the serializer. -/
def documentToYaml (serialize : Yaml.Serializer) (d : Document Float) : Except Failure String :=
  (d.yaml serialize).mapError .unserializable

namespace CommandLine

/-- What the program makes of a source. -/
inductive Product where
  | postscript
  | yaml
  deriving DecidableEq, Repr

/-- The extension of a product's file. -/
def Product.extension : Product → String
  | postscript => "ps"
  | yaml => "yaml"

/-- Makes the product of a source. -/
def Product.make (serialize : Yaml.Serializer) (p : Product) (source : String) :
    Except Failure String := do
  let document ← (Score.parse source).mapError .stopped
  match p with
  | postscript =>
    let drawing ← document.render.mapError .stopped
    return PostScript.program drawing
  | yaml => documentToYaml serialize document

/-- What the arguments ask for. -/
structure Request where
  product : Product
  input : String
  output : Option String
  deriving DecidableEq, Repr

/-- How the program ends: its status and its messages. -/
structure Outcome where
  status : Nat
  messages : List String
  deriving DecidableEq, Repr

namespace Outcome

def success (message : String) : Outcome := ⟨0, [message]⟩

def failure (messages : List String) : Outcome := ⟨1, messages⟩

/-- The program has broken off. Where it did is not told here. -/
def abort (message : String) : Outcome := ⟨101, [message]⟩

end Outcome

def usage : String := "Usage: gaspar <input.sanz> [output.ps]"

def yamlUsage : String := "gaspar --yaml <input.sanz> [output.yaml]"

/-- Reads the arguments, or says how they are used. Arguments after the output are free. -/
def Request.ofArguments : List String → Except Outcome Request
  | [] => .error (.failure [usage, "       " ++ yamlUsage])
  | "--yaml" :: [] => .error (.failure ["Usage: " ++ yamlUsage])
  | "--yaml" :: input :: rest => .ok ⟨.yaml, input, rest.head?⟩
  | input :: rest => .ok ⟨.postscript, input, rest.head?⟩

/-- The path of the output: next to the input if none is asked for. -/
def Request.outputPath (r : Request) : String :=
  r.output.getD (Files.withExtension r.input r.product.extension)

variable {m : Type → Type} [Monad m]

/-- Carries out a request. -/
def carryOut (serialize : Yaml.Serializer) (files : FileAccess m) (r : Request) : m Outcome := do
  if !(← files.isFile r.input) then
    return .failure ["No such file: " ++ r.input]
  match ← files.read r.input with
  | .error e => return .failure ["Error reading file '" ++ r.input ++ "': " ++ e.message]
  | .ok source =>
    match r.product.make serialize source with
    | .error (.stopped .overflow) => return .abort (Stop.overflow).message
    | .error f => return .failure ["Compilation error: " ++ f.message]
    | .ok text =>
      match ← files.write r.outputPath text with
      | .error e => return .failure ["Error writing to '" ++ r.outputPath ++ "': " ++ e.message]
      | .ok () => return .success ("Wrote " ++ r.outputPath)

/-- The whole program. -/
def run (serialize : Yaml.Serializer) (files : FileAccess m) (arguments : List String) :
    m Outcome :=
  match Request.ofArguments arguments with
  | .error o => return o
  | .ok r => carryOut serialize files r

end CommandLine

end Tablature
