/-
Running commands on a machine.

The configuration is loaded first. A host is started only by commands that need one, and what a
command prints is printed only when all of it has succeeded.
-/
import CodeCache.CommandLine.Command
import CodeCache.Compile.Pipeline
import CodeCache.Config
import CodeCache.Host.Engine
import CodeCache.Loading.CacheHandler
import CodeCache.Loading.ModuleTable

namespace CodeCache

inductive CommandError where
  | config (cause : ConfigError)
  | compile (cause : CompileError)
  /-- no target is configured, or none passes the filter -/
  | nothingToBuild (root : Text)
  /-- a directory for the loader that cannot be created -/
  | directory (path : Text)
  /-- a cache that cannot be read -/
  | unreadableCache (path : Text)
deriving DecidableEq, Repr

def CommandError.message : CommandError → String
  | .config cause => cause.message
  | .compile cause => cause.message
  | .nothingToBuild root => s!"No [[target]] entries to build (searched from {String.ofList root})"
  | .directory path => s!"Failed to create {String.ofList path}"
  | .unreadableCache path => s!"Failed to read {String.ofList path}"

/-- a line of output -/
def Text.line (t : Text) : Text := t ++ ['\n']

/-- the line that says what became of a file -/
def Report.line (r : Report) : Text :=
  Text.line (r.source ++ " -> ".toList ++ r.cachePath ++ " (".toList ++ Text.ofNat r.cacheLength ++
    " bytes)".toList)

namespace Command

/-! ## Engines -/

/-- starts the configured host -/
def launch (c : Config) (m : Machine) : Except CommandError HostEngine × Machine :=
  let (result, m) := HostEngine.launch .complete m c.nodePath none
  (result.mapError fun e => .compile (.engine e), m)

/-- files compiled with the configured toolchain, the host started only if it is needed -/
def compileAll (c : Config) (options : List Options) (m : Machine) :
    Except CommandError (List Report) × Machine :=
  if options.any fun o => !o.electron then
    match launch c m with
    | (.error e, m) => (.error e, m)
    | (.ok host, m) =>
      let (result, m, host) :=
        Toolchain.compileFiles ⟨some HostEngine.engine, c.layoutTable, .complete⟩ m host options
      (result.mapError .compile, (host.report m).2)
  else
    let (result, m, _) :=
      Toolchain.compileFiles (⟨none, c.layoutTable, .complete⟩ : Toolchain Unit) m () options
    (result.mapError .compile, m)

/-! ## Commands -/

/-- the draft of a file given on the command line, over the configuration's -/
def compileDraft (c : Config) (k : CompileCommand) : Draft :=
  let base := c.draft
  { base with
    filename := k.file
    output := k.output.or base.output
    asModule := k.asModule
    electron := k.electron || k.electronPath.isSome
    electronPath := k.electronPath.or base.electronPath
    createLoader := k.createLoader
    loaderName := k.loaderName.or base.loaderName
    extension := k.extension.or base.extension }

def runCompile (c : Config) (k : CompileCommand) (m : Machine) :
    Except CommandError Text × Machine :=
  match (compileDraft c k).resolve with
  | .error e => (.error (.compile (.options e)), m)
  | .ok options =>
    match compileAll c [options] m with
    | (.error e, m) => (.error e, m)
    | (.ok reports, m) =>
      (.ok (reports.flatMap fun r => r.line ++
        match r.loaderPath with
        | some path => Text.line ("loader: ".toList ++ path)
        | none => []), m)

/-- the targets whose file name, as written, contains the filter -/
def selectTargets (c : Config) (filter : Option Text) : List Target :=
  match filter with
  | some part => c.targets.filter fun t => Text.contains part t.filename
  | none => c.targets

def runBuild (c : Config) (filter : Option Text) (m : Machine) :
    Except CommandError Text × Machine :=
  match (selectTargets c filter).mapM fun t => (c.targetDraft t).resolve with
  | .error e => (.error (.compile (.options e)), m)
  | .ok [] => (.error (.nothingToBuild c.root), m)
  | .ok options =>
    match compileAll c options m with
    | (.error e, m) => (.error e, m)
    | (.ok reports, m) =>
      (.ok (reports.flatMap Report.line ++
        Text.line ("built ".toList ++ Text.ofNat reports.length ++ " target(s)".toList)), m)

def runLoader (c : Config) (k : LoaderCommand) (m : Machine) : Except CommandError Text × Machine :=
  let name := (k.loaderName.or c.loaderName).getD Options.standardLoaderName
  let extension := (k.extension.or c.extension).getD Extension.standard
  match m.makeDirectories k.directory with
  | (.error _, m) => (.error (.directory k.directory), m)
  | (.ok (), m) =>
    match Loader.write k.directory name extension c.layoutTable m with
    | (.error e, m) => (.error (.compile e), m)
    | (.ok path, m) => (.ok (Text.line path), m)

/-- the header as a JSON object, its fields in their own order -/
def headerJson (h : Header) : Json :=
  .obj [("source_length", .nat h.sourceLength.toNat),
    ("fingerprint", .arr (h.fingerprint.map fun b => .nat b.toNat)),
    ("total_len", .nat h.totalLength)]

/-- the header in lines, a name in front of each field -/
def headerLines (path : Text) (h : Header) : Text :=
  Text.line ("File:           ".toList ++ path) ++
    Text.line ("Size:           ".toList ++ Text.ofNat h.totalLength ++ " bytes".toList) ++
    Text.line ("Source length:  ".toList ++ Text.ofNat h.sourceLength.toNat) ++
    Text.line ("Fingerprint:    ".toList ++ h.fingerprintHex) ++
    Text.line ("Placeholder:    ".toList ++
      Text.ofNat (Placeholder.utf8Size h.sourceLength).toNat ++ " bytes UTF-8".toList)

def runInspect (cache : Text) (asJson : Bool) (m : Machine) : Except CommandError Text :=
  match m.read cache with
  | .error _ => .error (.unreadableCache cache)
  | .ok data =>
    match Header.parse data with
    | .error e => .error (.compile (.cache e))
    | .ok header =>
      .ok (if asJson then Text.line (headerJson header).pretty else headerLines cache header)

def runCache (c : Config) (cache : Text) (asModule : Bool) (m : Machine) :
    Except CommandError Text × Machine :=
  match launch c m with
  | (.error e, m) => (.error e, m)
  | (.ok host, m) =>
    let handler := CacheHandler.new c.layoutTable (if asModule then .module else .script)
    match ModuleTable.empty.register ((Path.extension? cache).getD []) handler with
    | .error e => (.error (.compile (.options e)), m)
    | .ok table =>
      let (result, _, m, host) := table.require (CacheHandler.loading HostEngine.engine) cache (m, host)
      let m := (host.report m).2
      match result with
      | .error e => (.error (.compile e), m)
      | .ok value => (.ok (Text.line value.pretty), m)

/-- what a command prints, and the machine afterwards -/
def execute (c : Config) (m : Machine) : Command → Except CommandError Text × Machine
  | .compile k => runCompile c k m
  | .build filter => runBuild c filter m
  | .loader k => runLoader c k m
  | .inspect cache asJson => (runInspect cache asJson m, m)
  | .run cache asModule => runCache c cache asModule m

end Command

/-! ## Command lines -/

/-- how the program ends -/
inductive Ending where
  | printed (output : Text)
  | failed (cause : CommandError)
  | misused
deriving DecidableEq, Repr

def Ending.exitCode : Ending → Nat
  | .printed _ => 0
  | .failed _ => 1
  | .misused => 2

/-- what the program prints -/
def Ending.output : Ending → Text
  | .printed output => output
  | _ => []

namespace CommandLine

def versionText : Text := Text.line "kiln 0.1.0"

def helpText : Text :=
  Text.ofLines
    ["Usage: kiln [-v] [--config FILE] COMMAND",
      "",
      "  compile FILE [-o DIR] [--module] [--electron] [--electron-path PATH] [--loader]",
      "               [--loader-filename NAME] [--extname EXT]",
      "  build [--filter TEXT]",
      "  loader [--dir DIR] [--filename NAME] [--extname EXT]",
      "  inspect CACHE [--json]",
      "  run CACHE [--module]"]

/-- runs a command line that has been read -/
def execute (line : CommandLine) (m : Machine) : Ending × Machine :=
  match Config.load m line.config with
  | .error e => (.failed (.config e), m)
  | .ok c =>
    match line.command.execute c m with
    | (.ok output, m) => (.printed output, m)
    | (.error e, m) => (.failed e, m)

/-- the program: its arguments on a machine -/
def run (arguments : List Text) (m : Machine) : Ending × Machine :=
  match read arguments with
  | .ok line => line.execute m
  | .error .help => (.printed helpText, m)
  | .error .version => (.printed versionText, m)
  | .error .usage => (.misused, m)

end CommandLine

end CodeCache
