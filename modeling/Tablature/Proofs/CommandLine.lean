import Mathlib.Data.List.Basic
import Tablature.CommandLine
import Tablature.Proofs.Files

/-!
# What the program leaves behind

The program stops at the first thing that goes wrong, and writes only behind all of
them. So on files that can be relied on, a run that fails or breaks off changes
nothing, and a run that succeeds has written one file, which holds what the library
makes of the source. Of the serializer nothing is assumed.

* `CommandLine.Asks`: the product and the paths that arguments ask for;
* `make_eq_fromLibrary`: the program makes what the library makes;
* `CommandLine.Ends`, `run_cases`: the ways in which a request ends, and no run ends
  otherwise;
* `run_writes_product_or_nothing`: what a run leaves behind.
-/

namespace Tablature

/-- A step of a program that is known to end in some state is followed by the rest from there. -/
theorem run_bind_of_run {σ β γ : Type} {x : StateM σ β} {s t : σ} {b : β} (h : x.run s = (b, t))
    (f : β → StateM σ γ) : (x >>= f).run s = (f b).run t := by
  rw [StateT.run_bind, h]
  rfl

namespace CommandLine

variable {σ ν : Type} {serialize : Yaml.Serializer} {files : FileAccess (StateM σ)} {s t : σ}
  {o : Outcome}

/-! ## Arguments -/

/-- What arguments ask for: a product, the path of the source, and the path to write to, which is
next to the source if none is given. -/
inductive Asks : List String → Product → String → String → Prop where
  | postscript {input : String} : input ≠ "--yaml" →
    Asks [input] .postscript input (Files.withExtension input "ps")
  | postscriptTo {input output : String} {rest : List String} : input ≠ "--yaml" →
    Asks (input :: output :: rest) .postscript input output
  | yaml {input : String} :
    Asks ["--yaml", input] .yaml input (Files.withExtension input "yaml")
  | yamlTo {input output : String} {rest : List String} :
    Asks ("--yaml" :: input :: output :: rest) .yaml input output

variable {arguments : List String} {product : Product} {input output : String}

/-- What is asked for is what the program carries out. -/
theorem Asks.exists_request (h : Asks arguments product input output)
    (serialize : Yaml.Serializer) (files : FileAccess (StateM σ)) :
    ∃ r : Request, run serialize files arguments = carryOut serialize files r ∧
      r.product = product ∧ r.input = input ∧ r.outputPath = output := by
  cases h with
  | @postscript input h =>
    exact ⟨⟨.postscript, input, none⟩, by simp [run, Request.ofArguments, h], rfl, rfl, rfl⟩
  | @postscriptTo input output _ h =>
    exact ⟨⟨.postscript, input, some output⟩, by simp [run, Request.ofArguments, h], rfl, rfl, rfl⟩
  | yaml | yamlTo => exact ⟨_, rfl, rfl, rfl, rfl⟩

/-- Arguments ask for something, or the program only says how it is used. -/
theorem exists_asks (arguments : List String) :
    (∃ messages, ∀ (serialize : Yaml.Serializer) (files : FileAccess (StateM σ)),
        run serialize files arguments = pure ⟨1, messages⟩) ∨
      ∃ product input output, Asks arguments product input output := by
  match arguments with
  | [] => exact .inl ⟨_, fun _ _ => rfl⟩
  | first :: rest =>
    by_cases h : first = "--yaml"
    · subst h
      match rest with
      | [] => exact .inl ⟨_, fun _ _ => rfl⟩
      | [input] => exact .inr ⟨_, _, _, .yaml⟩
      | input :: output :: rest => exact .inr ⟨_, _, _, .yamlTo⟩
    · match rest with
      | [] => exact .inr ⟨_, _, _, .postscript h⟩
      | output :: rest => exact .inr ⟨_, _, _, .postscriptTo h⟩

/-! ## Products -/

/-- What the library makes of a source. -/
def Product.fromLibrary (serialize : Yaml.Serializer) :
    Product → String → Except Failure String
  | postscript, source => (compile source).mapError .stopped
  | yaml, source => (Score.parse source).mapError .stopped >>= documentToYaml serialize

/-- The program makes what the library makes. -/
theorem make_eq_fromLibrary (serialize : Yaml.Serializer) (product : Product) (source : String) :
    product.make serialize source = product.fromLibrary serialize source := by
  cases product with
  | postscript =>
    simp only [Product.make, Product.fromLibrary, compile, render]
    cases (Score.parse source : Except (Stop Float) (Document Float)) with
    | error e => rfl
    | ok d =>
      simp only [bind, Except.bind, Except.mapError]
      cases d.render <;> rfl
  | yaml => rfl

/-! ## Runs -/

/-- The ways in which a request ends, by the first thing that goes wrong. -/
inductive Ends (serialize : Yaml.Serializer) (files : FileAccess (StateM σ)) (product : Product)
    (input output : String) (s : σ) : Outcome → σ → Prop where
  | noFile : (files.isFile input).run s = (false, s) →
    Ends serialize files product input output s ⟨1, ["No such file: " ++ input]⟩ s
  | unreadable {e : FileError} :
    (files.isFile input).run s = (true, s) → (files.read input).run s = (.error e, s) →
    Ends serialize files product input output s
      ⟨1, ["Error reading file '" ++ input ++ "': " ++ e.message]⟩ s
  | faulty {source : String} {f : Failure} :
    (files.isFile input).run s = (true, s) → (files.read input).run s = (.ok source, s) →
    product.fromLibrary serialize source = .error f → f ≠ .stopped .overflow →
    Ends serialize files product input output s ⟨1, ["Compilation error: " ++ f.message]⟩ s
  /-- A sum has been too large. -/
  | broken {source : String} :
    (files.isFile input).run s = (true, s) → (files.read input).run s = (.ok source, s) →
    product.fromLibrary serialize source = .error (.stopped .overflow) →
    Ends serialize files product input output s (.abort Stop.overflow.message) s
  | unwritable {source text : String} {e : FileError} :
    (files.isFile input).run s = (true, s) → (files.read input).run s = (.ok source, s) →
    product.fromLibrary serialize source = .ok text → (files.write output text).run s = (.error e, s) →
    Ends serialize files product input output s
      ⟨1, ["Error writing to '" ++ output ++ "': " ++ e.message]⟩ s
  | wrote {source text : String} {t : σ} :
    (files.isFile input).run s = (true, s) → (files.read input).run s = (.ok source, s) →
    product.fromLibrary serialize source = .ok text → (files.write output text).run s = (.ok (), t) →
    Ends serialize files product input output s ⟨0, ["Wrote " ++ output]⟩ t

namespace Ends

variable (h : Ends serialize files product input output s o t)

include h

theorem run_eq (hasks : Asks arguments product input output) :
    (run serialize files arguments).run s = (o, t) := by
  obtain ⟨r, hrun, rfl, rfl, rfl⟩ := hasks.exists_request serialize files
  rw [hrun, carryOut]
  cases h with
  | noFile hfile => exact run_bind_of_run hfile _
  | unreadable hfile hread => exact (run_bind_of_run hfile _).trans (run_bind_of_run hread _)
  | faulty hfile hread hmake hreported =>
    refine (run_bind_of_run hfile _).trans ((run_bind_of_run hread _).trans ?_)
    simp only [make_eq_fromLibrary, hmake]
    rfl
  | broken hfile hread hmake =>
    refine (run_bind_of_run hfile _).trans ((run_bind_of_run hread _).trans ?_)
    simp only [make_eq_fromLibrary, hmake]
    rfl
  | unwritable hfile hread hmake hwrite | wrote hfile hread hmake hwrite =>
    refine (run_bind_of_run hfile _).trans ((run_bind_of_run hread _).trans ?_)
    simp only [make_eq_fromLibrary, hmake]
    exact run_bind_of_run hwrite _

theorem status : o.status = 0 ∨ o.status = 1 ∨ o.status = 101 := by
  cases h <;> simp [Outcome.abort]

/-- Whatever goes wrong leaves everything as it was. -/
theorem eq_of_status (ho : o.status ≠ 0) : t = s := by
  cases h <;> first | rfl | exact absurd rfl ho

/-- If nothing goes wrong, the product of the source has been written. -/
theorem wrote_of_status {view : FileView σ ν} (hfiles : files.Lawful view) (ho : o.status = 0) :
    ∃ source text, view.Holds s input source ∧ product.fromLibrary serialize source = .ok text ∧
      view.Wrote s output text t := by
  cases h with
  | wrote _ hread hmake hwrite =>
    exact ⟨_, _, hfiles.holds_of_read hread, hmake, hfiles.wrote_of_write hwrite⟩
  | _ => cases ho

end Ends

section

variable {view : FileView σ ν} (hfiles : files.Lawful view)

include hfiles

/-- A request ends in one of the ways. -/
theorem exists_ends (serialize : Yaml.Serializer) (product : Product) (input output : String)
    (s : σ) : ∃ o t, Ends serialize files product input output s o t := by
  cases hfile : ((files.isFile input).run s).1 with
  | false => exact ⟨_, _, .noFile (hfiles.run_isFile hfile)⟩
  | true =>
    have hfile := hfiles.run_isFile hfile
    cases hread : ((files.read input).run s).1 with
    | error e => exact ⟨_, _, .unreadable hfile (hfiles.run_read hread)⟩
    | ok source =>
      have hread := hfiles.run_read hread
      cases hmake : product.fromLibrary serialize source with
      | error f =>
        by_cases hf : f = .stopped .overflow
        · subst hf
          exact ⟨_, _, .broken hfile hread hmake⟩
        · exact ⟨_, _, .faulty hfile hread hmake hf⟩
      | ok text =>
        cases hwrite : ((files.write output text).run s).1 with
        | error e => exact ⟨_, _, .unwritable hfile hread hmake (hfiles.run_write_error hwrite)⟩
        | ok _ => exact ⟨_, _, .wrote hfile hread hmake (Prod.ext hwrite rfl)⟩

/-- A run says how the program is used, or carries out what it is asked for. -/
theorem run_cases {arguments : List String} (h : (run serialize files arguments).run s = (o, t)) :
    (o.status = 1 ∧ t = s) ∨ ∃ product input output, Asks arguments product input output ∧
      Ends serialize files product input output s o t := by
  obtain ⟨messages, hrun⟩ | ⟨product, input, output, hasks⟩ := exists_asks (σ := σ) arguments
  · rw [hrun] at h
    cases h
    exact .inl ⟨rfl, rfl⟩
  · obtain ⟨o', t', hends⟩ := exists_ends hfiles serialize product input output s
    rw [hends.run_eq hasks] at h
    cases h
    exact .inr ⟨product, input, output, hasks, hends⟩

end

/-- Files that can be relied on are left as they were by a run that fails or breaks off. A run that
succeeds has written one file, at the place of the path that is asked for, and it holds what the
library makes of the text of the source. Where the library refuses a source that can be read, the
run fails with its message; where a sum is too large, it breaks off; and where neither is the case,
it fails only if the file cannot be written. Compiling a file that can be read gives what compiling
its text gives. -/
theorem run_writes_product_or_nothing {view : FileView σ ν} (hfiles : files.Lawful view)
    (serialize : Yaml.Serializer) (arguments : List String) (s : σ) :
    (∀ o t, (run serialize files arguments).run s = (o, t) →
      (o.status = 0 ∨ o.status = 1 ∨ o.status = 101) ∧ (o.status ≠ 0 → t = s) ∧
      (o.status = 0 → ∃ product input output source text,
        Asks arguments product input output ∧ view.Holds s input source ∧
        product.fromLibrary serialize source = .ok text ∧ view.Wrote s output text t) ∧
      ∀ product input output source, Asks arguments product input output →
        ((files.isFile input).run s).1 = true → ((files.read input).run s).1 = .ok source →
        (∀ f, product.fromLibrary serialize source = .error f → f ≠ .stopped .overflow →
          o = ⟨1, ["Compilation error: " ++ f.message]⟩) ∧
        (product.fromLibrary serialize source = .error (.stopped .overflow) →
          o = .abort Stop.overflow.message) ∧
        ∀ text, product.fromLibrary serialize source = .ok text →
          ((files.write output text).run s).1 = .ok () → o.status = 0) ∧
    ∀ path source, ((files.read path).run s).1 = .ok source →
      (compileFile files path).run s = ((compile source).mapError .stopped, s) := by
  refine ⟨fun o t hrun => ?_, fun path source hread => run_bind_of_run (hfiles.run_read hread) _⟩
  have hcases := run_cases hfiles hrun
  refine ⟨?_, fun ho => ?_, fun ho => ?_, ?_⟩
  · obtain ⟨ho, -⟩ | ⟨_, _, _, -, hends⟩ := hcases
    · exact .inr (.inl ho)
    · exact hends.status
  · obtain ⟨-, ht⟩ | ⟨_, _, _, -, hends⟩ := hcases
    · exact ht
    · exact hends.eq_of_status ho
  · obtain ⟨ho', -⟩ | ⟨product, input, output, hasks, hends⟩ := hcases
    · rw [ho] at ho'
      cases ho'
    · obtain ⟨source, text, h⟩ := hends.wrote_of_status hfiles ho
      exact ⟨product, input, output, source, text, hasks, h⟩
  · intro product input output source hasks hfile hread
    have hfile := hfiles.run_isFile hfile
    have hread := hfiles.run_read hread
    refine ⟨fun f hmake hreported => ?_, fun hmake => ?_, fun text hmake hwrite => ?_⟩
    · rw [(Ends.faulty hfile hread hmake hreported).run_eq hasks] at hrun
      exact (congrArg Prod.fst hrun).symm
    · rw [(Ends.broken hfile hread hmake).run_eq hasks] at hrun
      exact (congrArg Prod.fst hrun).symm
    · rw [(Ends.wrote hfile hread hmake (Prod.ext hwrite rfl)).run_eq hasks] at hrun
      exact congrArg (fun r => r.1.status) hrun.symm

/-- In a store with three sources: the first is written as YAML next to itself, but not into a
directory that is not there; the second has a fault, and the third stops for a sum. -/
theorem run_writes_product_or_nothing_store :
    let s : FileStore := ⟨[(["d", "a.sanz"], "P-1\nTITLE é\nS-\n1-0".toUTF8),
      (["b.sanz"], "P-1\n1-0".toUTF8),
      (["c.sanz"], "FRENCH\nNUMBEROFCOURSES 18446744073709551615\nP-1\nS-\n1-0".toUTF8)]⟩
    let run (arguments : List String) := (run Yaml.printer FileStore.access arguments).run s
    FileStore.access.Lawful FileStore.view ∧
      (∃ source text, FileStore.view.Holds s "d/a.sanz" source ∧
        Product.yaml.fromLibrary Yaml.printer source = .ok text ∧
        FileStore.view.Wrote s "d/a.yaml" text (run ["--yaml", "d/a.sanz"]).2) ∧
      run ["d/a.sanz", "c/a.ps"] =
        (⟨1, ["Error writing to 'c/a.ps': No such file or directory (os error 2)"]⟩, s) ∧
      run ["b.sanz"] =
        (⟨1, ["Compilation error: 'note' at line 2 needs a stave; start one with S-"]⟩, s) ∧
      run ["c.sanz"] = (⟨101, ["attempt to add with overflow"]⟩, s) := by
  intro s run
  have hlawful := FileStore.lawful_access
  have hall (arguments : List String) :=
    (run_writes_product_or_nothing hlawful Yaml.printer arguments s).1 (run arguments).1 (run arguments).2 rfl
  refine ⟨hlawful, ?_, ?_, ?_, ?_⟩
  · obtain ⟨-, -, hwrote, -⟩ := hall ["--yaml", "d/a.sanz"]
    obtain ⟨product, input, output, source, text, hasks, h⟩ := hwrote (by decide +kernel)
    have houtput : Files.withExtension "d/a.sanz" "yaml" = "d/a.yaml" := by decide +kernel
    cases hasks with
    | yaml => exact ⟨source, text, houtput ▸ h⟩
    | postscriptTo hne => exact absurd rfl hne
  · obtain ⟨-, hsame, -⟩ := hall ["d/a.sanz", "c/a.ps"]
    exact Prod.ext (by decide +kernel) (hsame (by decide +kernel))
  · obtain ⟨-, hsame, -, hfault⟩ := hall ["b.sanz"]
    have hread : (((FileStore.access.read "b.sanz").run s).1).toOption = some "P-1\n1-0" := by
      decide +kernel
    have hcompile : compile "P-1\n1-0" = .error (.fault (.noStave 2 "note")) := by decide +kernel
    have hfault : (run ["b.sanz"]).1 = _ :=
      (hfault .postscript "b.sanz" "b.ps" "P-1\n1-0" (.postscript (by decide)) (by decide +kernel)
        (toOption_eq_some.1 hread)).1 (.stopped (.fault (.noStave 2 "note")))
        (congrArg (Except.mapError Failure.stopped) hcompile) nofun
    exact Prod.ext hfault (hsame (by rw [hfault]; decide))
  · obtain ⟨-, hsame, -⟩ := hall ["c.sanz"]
    exact Prod.ext (by decide +kernel) (hsame (by decide +kernel))

end CommandLine

end Tablature
