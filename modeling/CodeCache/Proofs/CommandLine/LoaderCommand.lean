/-
The loader command and a compile with a loader write the same loader.

They get there in different ways. The compile merges its arguments with the configuration into a
draft, which normalises the extension before the loader does, and writes a cache first; the command
merges by itself and leaves normalising to the loader. Normalising twice changes nothing
(`Loader.render_normalized`), and a loader does not depend on a file that was written before it
(`FileSystem.write_without`).

Main result, `Command.loader_of_compile`.
-/
import CodeCache.Proofs.CommandLine.Build
import CodeCache.Proofs.Compile.Stages
import CodeCache.Proofs.System.SameWays

namespace CodeCache

/-! ## Writing -/

/-- a loader is rendered for the normal form of its extension -/
theorem Loader.render_normalized {t extension : Text} (h : Extension.normalize t = .ok extension)
    (table : LayoutTable) : render extension table = render t table := by
  obtain ⟨-, -, hagain⟩ := Extension.normalize_spec h
  rw [render, render, h, hagain]

/-- Outputs with a loader, written one after another: the directories on their way, the cache, the
loader. -/
inductive LaidOut (o : Options) (table : LayoutTable) (here : Route) (fs fs' : FileSystem) :
    Prop where
  | intro (made files : FileSystem) (cache : Bytes) (script : Text) :
    fs.makeDirectories here o.output = (.ok (), made) →
    made.write here o.cachePath cache = .ok files →
    Loader.render o.extension table = .ok script →
    files.write here o.loaderPath (Utf8.encode script) = .ok fs' → LaidOut o table here fs fs'

theorem Toolchain.laidOut_of_writeOutputs {σ : Type} {T : Toolchain σ} {o : Options} {cache : Bytes}
    {loaderPath : Option Text} {m m' : Machine} (hcreate : o.createLoader = true)
    (h : T.writeOutputs o cache m = (.ok loaderPath, m')) :
    loaderPath = some o.loaderPath ∧ m'.directory = m.directory ∧
      LaidOut o T.layouts m.directory m.files m'.files := by
  obtain ⟨m₁, m₂, hmake, hcache, hloader⟩ := writeOutputs_ok h
  rcases writeLoader_ok hloader with ⟨-, hpath, script, hrender, hwrite⟩ | ⟨hnone, -⟩
  · obtain ⟨files, hfiles, rfl⟩ := Machine.write_eq_ok_iff.1 hcache
    obtain ⟨files', hfiles', rfl⟩ := Machine.write_eq_ok_iff.1 hwrite
    rcases hmade : m.files.makeDirectories m.directory o.output with ⟨result, made⟩
    simp only [Machine.makeDirectories, hmade, Prod.mk.injEq] at hmake
    obtain ⟨rfl, rfl⟩ := hmake
    exact ⟨hpath, rfl, .intro made files cache script hmade hfiles hrender hfiles'⟩
  · rw [hcreate] at hnone
    cases hnone

namespace Command

open Toolchain

variable {c : Config} {options : List Options} {reports : List Report} {m m₁ : Machine}

/-- the loader command, by the files it changes -/
theorem runLoader_of_files {k : LoaderCommand} {script : Text} {made files : FileSystem}
    (hmake : m.files.makeDirectories m.directory k.directory = (.ok (), made))
    (hrender : Loader.render ((k.extension.or c.extension).getD Extension.standard) c.layoutTable =
      .ok script)
    (hwrite : made.write m.directory
      (Path.join k.directory ((k.loaderName.or c.loaderName).getD Options.standardLoaderName))
      (Utf8.encode script) = .ok files) :
    runLoader c k m = (.ok (Text.line (Path.join k.directory
      ((k.loaderName.or c.loaderName).getD Options.standardLoaderName))), m.withFiles files) := by
  have hmade : m.makeDirectories k.directory = (.ok (), m.withFiles made) := by
    rw [Machine.makeDirectories, hmake]
  have hwritten : (m.withFiles made).write
      (Path.join k.directory ((k.loaderName.or c.loaderName).getD Options.standardLoaderName))
      (Utf8.encode script) = (.ok (), m.withFiles files) :=
    Machine.write_eq_ok_iff.2 ⟨files, hwrite, rfl⟩
  simp only [runLoader, hmade, Loader.write_eq, hrender, hwritten]

/-! ## Compiling -/

/-- files that were all compiled, before what happens to the machine at the end -/
theorem runs_of_settled {σ : Type} (T : Toolchain σ) {s : σ} (settle : Machine → σ → Machine)
    (h : (let (result, m, s) := T.compileFiles m s options
      (result.mapError CommandError.compile, settle m s)) = (.ok reports, m₁)) :
    ∃ m₂ s', T.Runs m s options reports m₂ s' ∧ m₁ = settle m₂ s' := by
  rcases hfiles : T.compileFiles m s options with ⟨e | reports', m₂, s'⟩
  · rw [hfiles] at h
    cases h
  · rw [hfiles] at h
    cases h
    exact ⟨m₂, s', runs_of_compileFiles hfiles, rfl⟩

/-- files are compiled from those that are there; a host that is needed changes none of them -/
theorem runs_of_compileAll (h : compileAll c options m = (.ok reports, m₁)) :
    ∃ (σ : Type) (T : Toolchain σ) (m₀ m₂ : Machine) (s s' : σ), T.layouts = c.layoutTable ∧
      (m₀.files = m.files ∧ m₀.directory = m.directory) ∧ T.Runs m₀ s options reports m₂ s' ∧
      (m₁.files = m₂.files ∧ m₁.directory = m₂.directory) := by
  unfold compileAll at h
  split_ifs at h
  · obtain ⟨record, hrecord⟩ := launch_machine c m
    rcases hlaunch : launch c m with ⟨e | host, m₀⟩
    · rw [hlaunch] at h
      cases h
    · rw [hlaunch] at h hrecord
      have hm₀ : m₀ = { m with record := record } := hrecord
      obtain ⟨m₂, host', hruns, rfl⟩ :=
        runs_of_settled ⟨some HostEngine.engine, c.layoutTable, .complete⟩
          (fun m host => (host.report m).2) h
      exact ⟨_, _, m₀, m₂, host, host', rfl, ⟨by rw [hm₀], by rw [hm₀]⟩, hruns, rfl, rfl⟩
  · obtain ⟨m₂, s, hruns, rfl⟩ :=
      runs_of_settled (⟨none, c.layoutTable, .complete⟩ : Toolchain Unit) (fun m _ => m) h
    exact ⟨_, _, m, m₁, (), s, rfl, ⟨rfl, rfl⟩, hruns, rfl, rfl⟩

/-- one file that is compiled, with a loader: its outputs are written and its report names the loader -/
theorem laidOut_of_compileAll {o : Options} (hcreate : o.createLoader = true)
    (h : compileAll c [o] m = (.ok reports, m₁)) :
    ∃ report, reports = [report] ∧ report.loaderPath = some o.loaderPath ∧
      m₁.directory = m.directory ∧ LaidOut o c.layoutTable m.directory m.files m₁.files := by
  obtain ⟨σ, T, m₀, m₂, s, s', hlayouts, ⟨hfiles₀, hdirectory₀⟩, hruns, hfiles₂, hdirectory₂⟩ :=
    runs_of_compileAll h
  cases hruns with
  | cons hfile hrest =>
    cases hrest
    obtain ⟨text, cache, loaderPath, m₃, -, hcompile, hwrite, rfl⟩ := compileFile_ok hfile
    obtain ⟨hfiles₃, hdirectory₃⟩ := files_of_compileSource hcompile
    obtain ⟨hpath, hdirectory, hlaid⟩ := laidOut_of_writeOutputs hcreate hwrite
    rw [hlayouts, hfiles₃, hdirectory₃, hfiles₀, hdirectory₀, ← hfiles₂] at hlaid
    refine ⟨_, rfl, hpath, ?_, hlaid⟩
    rw [hdirectory₂, hdirectory, hdirectory₃, hdirectory₀]

/-- a compile command with a loader that succeeds resolves its draft, writes the outputs and prints
where the loader is -/
theorem laidOut_of_runCompile {k : CompileCommand} {printed : Text} (hloader : k.createLoader = true)
    (h : runCompile c k m = (.ok printed, m₁)) :
    (compileDraft c k).Usable ∧
      Text.line ("loader: ".toList ++ (compileDraft c k).filled.loaderPath) <:+ printed ∧
      m₁.directory = m.directory ∧
      LaidOut (compileDraft c k).filled c.layoutTable m.directory m.files m₁.files := by
  unfold runCompile at h
  cases hresolve : (compileDraft c k).resolve with
  | error e =>
    rw [hresolve] at h
    cases h
  | ok o =>
    obtain ⟨husable, rfl⟩ := Draft.resolve_eq_ok_iff.1 hresolve
    rcases hcompile : compileAll c [(compileDraft c k).filled] m with ⟨e | reports, m₂⟩
    · simp only [hresolve, hcompile] at h
      cases h
    · simp only [hresolve, hcompile] at h
      cases h
      obtain ⟨report, rfl, hpath, hdirectory, hlaid⟩ := laidOut_of_compileAll hloader hcompile
      refine ⟨husable, ?_, hdirectory, hlaid⟩
      simp only [List.flatMap_cons, List.flatMap_nil, List.append_nil, hpath]
      exact List.suffix_append _ _

/-- **One loader.** When a compile into a directory, with a loader, succeeds, the loader command for
this directory with the same overrides succeeds on the machine as it was before. It names the path
that the compile has named, which leads to the same file, with the script for the extension; and
nothing else differs but the cache. -/
theorem loader_of_compile {k : CompileCommand} {directory printed : Text}
    (hloader : k.createLoader = true) (houtput : k.output = some directory)
    (h : execute c m (.compile k) = (.ok printed, m₁)) :
    ∃ path script m₂,
      path = Path.join directory ((k.loaderName.or c.loaderName).getD Options.standardLoaderName) ∧
      Loader.render ((k.extension.or c.extension).getD Extension.standard) c.layoutTable =
        .ok script ∧
      Text.line ("loader: ".toList ++ path) <:+ printed ∧
      execute c m (.loader ⟨directory, k.loaderName, k.extension⟩) = (.ok (Text.line path), m₂) ∧
      m₂.files.find m₂.directory path = m₁.files.find m₁.directory path ∧
      m₁.read path = .ok (Utf8.encode script) ∧ m₂.read path = .ok (Utf8.encode script) ∧
      m₁.files.SameBut m₂.files m₁.directory (compileDraft c k).filled.cachePath := by
  obtain ⟨husable, hprinted, hdirectory, made, files, cache, script, hmake, hcache, hrender, hwrite⟩ :=
    laidOut_of_runCompile hloader h
  have hout : (compileDraft c k).filled.output = directory := by
    change (k.output.or c.draft.output).getD _ = directory
    rw [houtput]
    rfl
  have hpath : (compileDraft c k).filled.loaderPath =
      Path.join directory ((k.loaderName.or c.loaderName).getD Options.standardLoaderName) := by
    rw [Options.loaderPath, hout]
    rfl
  rw [hout] at hmake
  rw [hpath] at hwrite hprinted
  -- the draft's extension is the normal form of the one that the command renders for
  have hnormal : Extension.normalize ((k.extension.or c.extension).getD Extension.standard) =
      .ok (compileDraft c k).filled.extension :=
    Extension.normalize_eq_ok_iff.2 ⟨husable.extension, rfl⟩
  rw [Loader.render_normalized hnormal] at hrender
  obtain ⟨files', r, executable, hwrite', hfind, hfind', hbut⟩ :=
    FileSystem.write_without hcache hwrite
  refine ⟨_, script, m.withFiles files', rfl, hrender, hprinted,
    runLoader_of_files hmake hrender hwrite', ?_, ?_, ?_, ?_⟩
  · rw [hdirectory, hfind]
    exact hfind'
  · rw [Machine.read, FileSystem.read, hdirectory, hfind]
  · change files'.read m.directory _ = _
    rw [FileSystem.read, hfind']
  · rw [hdirectory]
    exact hbut

/-- a loader for `.c` by the configuration, and the Electron that compiles -/
def replacedConfig : Config := ⟨none, some "/e", some "boot.js", some ".c", [], [], "/"⟩

/-- in the output directory, the loader's name is a link to where the cache will be -/
def replacedMachine : Machine :=
  ⟨⟨[(["e"], .file [] true (some ⟨"e", .compiler ⟨some [1, 2, 3], [], [], 0, false⟩⟩)),
    (["a.js"], .file (Utf8.encode "1") false none), (["out"], .directory),
    (["out", "boot.js"], .link "a.qbc")]⟩, [], [], []⟩

def replacedCommand : CompileCommand :=
  ⟨"a.js", some "out/", false, true, none, true, none, some "qbc"⟩

/-- the loader takes the place of the cache that was just written, and is the same one that goes there
without it -/
theorem loader_of_compile_replaced :
    (execute replacedConfig replacedMachine (.compile replacedCommand)).1 =
      .ok "a.js -> out/a.qbc (3 bytes)\nloader: out/boot.js\n" ∧
    ∃ m₂ script, execute replacedConfig replacedMachine (.loader ⟨"out/", none, some "qbc"⟩) =
      (.ok "out/boot.js\n", m₂) ∧
    (execute replacedConfig replacedMachine (.compile replacedCommand)).2.read "out/boot.js" =
      .ok (Utf8.encode script) ∧
    m₂.read "out/boot.js" = .ok (Utf8.encode script) ∧
    m₂.files.find [] "out/boot.js" = m₂.files.find [] "out/a.qbc" := by
  have hprinted : (execute replacedConfig replacedMachine (.compile replacedCommand)).1 =
      .ok "a.js -> out/a.qbc (3 bytes)\nloader: out/boot.js\n" := rfl
  obtain ⟨path, script, m₂, rfl, -, -, hcommand, -, hread, hread', -⟩ :=
    loader_of_compile (c := replacedConfig) (k := replacedCommand) (m := replacedMachine) rfl rfl
      (Prod.ext hprinted rfl)
  refine ⟨hprinted, m₂, script, hcommand, hread, hread', ?_⟩
  obtain rfl : (execute replacedConfig replacedMachine (.loader ⟨"out/", none, some "qbc"⟩)).2 = m₂ :=
    congrArg Prod.snd hcommand
  rfl

end Command

end CodeCache
