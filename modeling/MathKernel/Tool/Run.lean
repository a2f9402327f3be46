import MathKernel.Normalize.Pipeline
import MathKernel.Syntax.Dump
import MathKernel.Syntax.Printer
import MathKernel.Kernel.Bundle
import MathKernel.Link.Program
import MathKernel.Tool.Arguments
import MathKernel.Tool.Host
import MathKernel.Tool.Manifest

/-!
# Running commands

A run ends with a status, a text for the standard output and, if it fails, a message. What was
written before a failure stays written.

## Main definitions

* `ToolError`: why a command fails.
* `Outcome`, `run`: a whole run.
-/

namespace MathKernel

/-- Why a command fails. -/
inductive ToolError where
  | reading (path : String) (cause : HostError)
  | writing (path : String) (cause : HostError)
  | creating (dir : String) (cause : HostError)
  | parsing (path : String) (cause : DumpError)
  | manifest (path : String) (cause : TomlError)
  | normalizing (path : String) (cause : NormalizeError)
  | extracting (path : String) (cause : ExtractError)
  | writingBundle (path : String) (cause : HostError)
  | readingBundle (path : String) (cause : HostError)
  | loadingBundle (path : String) (cause : BundleError)
  | target (cause : UnknownTarget)
  | linking (entry : String) (target : Target) (cause : LinkError)

namespace ToolError

/-- The text on a failed operation on a bundle file, which gives the cause twice. -/
def bundleText (cause : HostError) : String :=
  "I/O error: " ++ cause.text ++ ": " ++ cause.text

/-- What the error says. -/
def message : ToolError → String
  | reading path cause => "reading " ++ path ++ ": " ++ cause.text
  | writing path cause => "writing " ++ path ++ ": " ++ cause.text
  | creating dir cause => "creating " ++ dir ++ ": " ++ cause.text
  | parsing path cause => "parsing " ++ path ++ ": " ++ cause.message
  | manifest path cause => "parsing " ++ path ++ ": " ++ cause.message
  | normalizing path cause => "transforming " ++ path ++ ": " ++ cause.message
  | extracting path cause => "extracting kernels from " ++ path ++ ": " ++ cause.message
  | writingBundle path cause => "writing " ++ path ++ ": " ++ bundleText cause
  | readingBundle path cause => "loading " ++ path ++ ": " ++ bundleText cause
  | loadingBundle path cause => "loading " ++ path ++ ": " ++ cause.message
  | target cause => cause.message
  | linking entry goal cause =>
    "linking '" ++ entry ++ "' for " ++ goal.name ++ ": " ++ cause.message

end ToolError

/-- The text that a command has put out, and why it stopped, if it failed. -/
structure Result where
  output : String
  failure : Option ToolError

namespace Result

/-- Success with a text. -/
def ok (output : String) : Result := ⟨output, none⟩

/-- Failure without a text. -/
def fail (e : ToolError) : Result := ⟨"", some e⟩

/-- Put a text before a result. -/
def after (output : String) (r : Result) : Result := { r with output := output ++ r.output }

end Result

section Commands

variable {m : Type → Type} [Monad m]

/-- Read and understand a manifest. -/
def Host.loadManifest (host : Host m) (path : String) : m (Except ToolError Manifest) := do
  match ← host.read path with
  | .error e => return .error (.reading path e)
  | .ok text => return (Manifest.ofText text).mapError (.manifest path)

/-- The manifest in the first of some directories that has one. -/
def Host.findManifest (host : Host m) : List String → m (Except ToolError Manifest)
  | [] => return .ok .default
  | dir :: above => do
    let path := Path.join dir Manifest.fileName
    match ← host.read path with
    | .ok text => return (Manifest.ofText text).mapError (.manifest path)
    | .error e => if e.absent then host.findManifest above else return .error (.reading path e)

/-- The given manifest, else the nearest one at or above the working directory. -/
def Host.manifest (host : Host m) (cwd : String) : Option String → m (Except ToolError Manifest)
  | some path => host.loadManifest path
  | none => host.findManifest (Path.ancestors cwd)

/-- Read the unit of a dump file. -/
def Host.readUnit (host : Host m) (path : String) : m (Except ToolError SourceUnit) := do
  match ← host.read path with
  | .error e => return .error (.reading path e)
  | .ok text => return (SourceUnit.ofText text).mapError (.parsing path)

/-- Normalize the unit of a dump file with the standard passes. -/
def normalizeFile (path : String) (u : SourceUnit) : Except ToolError (SourceUnit × Report) :=
  (normalize { baseName := Path.unitName path } u).mapError (.normalizing path)

/-- The kernels of the unit of a dump file. -/
def kernelsOfFile (config : ExtractConfig) (path : String) (u : SourceUnit) :
    Except ToolError (List Kernel) := do
  let (u, _) ← normalizeFile path u
  (u.extract config).mapError (.extracting path)

/-! ### Compiling -/

/-- Compile one dump to a bundle in a directory. -/
def Host.compileFile (host : Host m) (config : ExtractConfig) (dir input : String) :
    m (Except ToolError String) := do
  match (← host.readUnit input).bind (kernelsOfFile config input) with
  | .error e => return .error e
  | .ok kernels =>
    let name := Path.unitName input
    let path := Path.join dir (name ++ "." ++ Bundle.fileEnding)
    match ← host.write path (Bundle.new name kernels).text with
    | .error e => return .error (.writingBundle path e)
    | .ok () =>
      return .ok (input ++ " -> " ++ path ++ " (" ++ toString kernels.length ++ " kernels)\n")

/-- Compile dumps in order, up to the first that fails. -/
def Host.compileFiles (host : Host m) (config : ExtractConfig) (dir : String) :
    List String → m Result
  | [] => return .ok ""
  | input :: rest => do
    match ← host.compileFile config dir input with
    | .error e => return .fail e
    | .ok line => return (← host.compileFiles config dir rest).after line

/-- The compile command; bundles go to the working directory if no other is given. -/
def Host.compile (host : Host m) (cwd : String) (inputs : List String)
    (out manifest : Option String) : m Result := do
  match ← host.manifest cwd manifest with
  | .error e => return .fail e
  | .ok manifest =>
    let dir := out.getD cwd
    match ← host.createDirs dir with
    | .error e => return .fail (.creating dir e)
    | .ok () => host.compileFiles manifest.extractConfig dir inputs

/-! ### Linking -/

/-- The target when neither the command line nor the manifest names one. -/
def defaultTarget : String := "glsl300"

/-- Register the kernels of bundle files in order. -/
def Host.loadBundles (host : Host m) : Linker → List String → m (Except ToolError Linker)
  | l, [] => return .ok l
  | l, path :: rest => do
    match ← host.read path with
    | .error e => return .error (.readingBundle path e)
    | .ok text =>
      match Bundle.ofText text with
      | .error e => return .error (.loadingBundle path e)
      | .ok b => host.loadBundles (l.registerAll b.kernels) rest

/-- The text of uniform values by name. -/
def uniformsText (uniforms : NameMap (List Binary64)) : String :=
  (Json.object (uniforms.entries.map fun (name, xs) =>
    (name, .array (xs.map Binary64.toJson)))).pretty

/-- The program of an entry point and its uniforms, which only GLSL ES 1.00 has. -/
def linkProgram (l : Linker) (entry : String) (target : Target) :
    Except LinkError (String × NameMap (List Binary64)) := do
  let text ← l.program entry target
  let uniforms ← if target.arraysAsUniforms then l.runtimeUniforms entry else pure .empty
  return (text, uniforms)

/-- The link command. -/
def Host.link (host : Host m) (cwd entry : String) (bundles : List String)
    (target uniforms manifest : Option String) : m Result := do
  match ← host.manifest cwd manifest with
  | .error e => return .fail e
  | .ok manifest =>
    match Target.ofName ((target.or manifest.target).getD defaultTarget) with
    | .error e => return .fail (.target e)
    | .ok target =>
      match ← host.loadBundles .withBuiltins bundles with
      | .error e => return .fail e
      | .ok l =>
        match linkProgram l entry target with
        | .error e => return .fail (.linking entry target e)
        | .ok (text, values) =>
          match uniforms with
          | none => return .ok text
          | some path =>
            match ← host.write path (uniformsText values) with
            | .ok () => return .ok text
            | .error e => return ⟨text, some (.writing path e)⟩

/-! ### Showing -/

/-- The inspect command. -/
def Host.inspect (host : Host m) (input : String) (stage : Stage) : m Result := do
  match ← host.readUnit input with
  | .error e => return .fail e
  | .ok u =>
    match stage with
    | .raw => return .ok u.text
    | .transformed =>
      let start ← host.clock
      match normalizeFile input u with
      | .error e => return .fail e
      | .ok (u, report) =>
        let stop ← host.clock
        return .ok (u.text ++ "\n" ++ report.text (stop - start))

/-- Run a command in a working directory. -/
def Host.runCommand (host : Host m) (cwd : String) : Command → m Result
  | .compile inputs out manifest => host.compile cwd inputs out manifest
  | .link entry bundles target uniforms manifest =>
    host.link cwd entry bundles target uniforms manifest
  | .inspect input stage => host.inspect input stage

/-! ### Whole runs -/

/-- How a run ends. -/
structure Outcome where
  status : Nat
  output : String
  /-- What goes to the standard error. -/
  error : Option String

/-- The text of the version. -/
def versionText : String := "ckern 0.1.0\n"

/-- A short summary of the commands. -/
def helpText : String :=
  "Usage: ckern [-v] <COMMAND>\n\n" ++
    "  compile <INPUTS>... [--out <DIR>] [--manifest <FILE>]\n" ++
    "  export <ENTRY> --bundle <FILE>... [--target <NAME>] [--uniforms <FILE>]\n" ++
    "         [--manifest <FILE>]\n" ++
    "  inspect <INPUT> [--stage raw|transformed]\n"

/-- The outcome of a result. -/
def Outcome.ofResult (r : Result) : Outcome :=
  match r.failure with
  | none => ⟨0, r.output, none⟩
  | some e => ⟨1, r.output, some ("error: " ++ e.message)⟩

/-- Run the tool in a working directory. -/
def Host.run (host : Host m) (cwd : String) (args : List String) : m Outcome :=
  match Invocation.ofArgs args with
  | .error e => return ⟨2, "", some ("error: " ++ e.message)⟩
  | .ok .version => return ⟨0, versionText, none⟩
  | .ok .help => return ⟨0, helpText, none⟩
  | .ok (.run _ command) => return .ofResult (← host.runCommand cwd command)

end Commands

end MathKernel
