/-
What a compile does to the files, at each place where it can stop, whatever disk they are on.

Main result, `compileFile_stages`, for machines without symbolic links and options that resolve:
- As long as there is no cache, the files are as they were: whatever is wrong with the source, the
  engine, Electron, or what is compiled.
- Without the output directory or a file for the cache, at most directories on the output path were
  added. A cache that the disk broke off leaves a beginning of it in its file, and nothing of what the
  file held before (`not_compileFile_untouched`).
- Without a file for the loader, the complete cache is in place as well; a loader that was broken off
  leaves a beginning of it in its file.
- A success leaves the cache and, if one was asked for, the loader; the report agrees with both.

`Machine.Adds` says what a machine has besides another: directories that paths lead to, and files
with their contents. Creating directories adds some (`adds_makeDirectories`), and a write under a
name of its own adds one file (`Adds.write`). Since a write that is broken off is one of a beginning
(`Disk.write_cases`), both laws serve every disk.
-/
import CodeCache.Proofs.Compile.Outputs
import CodeCache.Proofs.System.Directories

namespace CodeCache

open FileSystem

/-! ## What is added to the files -/

namespace Machine

variable {m m₁ m₂ : Machine} {chain : List Text} {files : List (Text × Bytes)}
  {base name : Text} {r : Route} {content : Bytes}

/-- `m₁` differs from `m` in directories that paths of the chain lead to and in these files, by path
and content -/
structure Adds (m m₁ : Machine) (chain : List Text) (files : List (Text × Bytes)) : Prop where
  /-- nothing but files differs -/
  same : m₁ = m.withFiles m₁.files
  orderly : m₁.files.Orderly m₁.directory
  present : ∀ file ∈ files, ∃ r, m₁.HasFile file.1 r file.2
  others : ∀ r, m₁.files.node? r = m.files.node? r ∨
    (m.files.node? r = none ∧
      ∃ p ∈ chain, m₁.files.find m₁.directory p = .ok (r, .directory)) ∨
    ∃ file ∈ files, m₁.HasFile file.1 r file.2

/-- directories of the chain that were found, whether or not all of them were to be -/
theorem adds_makeChain (hm : m.files.Orderly m.directory) (chain : List Text) (n : Nat) :
    m.Adds (m.withFiles (m.files.makeChain m.directory (chain.drop n)).2) chain [] where
  same := rfl
  orderly := hm.growth (makeChain_growth hm _)
  present _ hfile := absurd hfile List.not_mem_nil
  others r := by
    rcases makeChain_opened hm (chain.drop n) r with hsame | ⟨hnone, p, hp, hfind⟩
    · exact .inl hsame
    · exact .inr (.inl ⟨hnone, p, List.mem_of_mem_drop hp, hfind⟩)

theorem adds_makeDirectories (hm : m.files.Orderly m.directory) (disk : Disk) (p : Text) :
    m.Adds (disk.makeDirectories m p).2 (Path.ancestors p) [] := by
  unfold Disk.makeDirectories
  cases disk.founding m p with
  | complete => exact adds_makeChain hm (Path.ancestors p) 0
  | brokenOff ancestor cause => exact adds_makeChain hm (Path.ancestors p) ancestor

/-- a file that is named like this is at a place of that name -/
theorem HasFile.named (h : m.HasFile (Path.join base name) r content) (hplain : IsPlain name) :
    ∃ above, r = above ++ [name] := by
  obtain ⟨executable, hplace⟩ := h.place
  obtain ⟨before, hsteps⟩ := exists_steps_join hplain.1 hplain.2 base
  exact ⟨r.dropLast, h.orderly.getLast?_place hplace (by simp) hsteps⟩

/-- a write puts a file where its path leads; no other place changes -/
theorem file_of_write {p : Text} (hm : m.files.Orderly m.directory)
    (hwrite : m.write p content = (.ok (), m₁)) :
    ∃ r node, m.files.place m.directory .through p = .ok ⟨r, node⟩ ∧
      m₁ = m.withFiles m₁.files ∧ m₁.directory = m.directory ∧ Growth m.files m₁.files ∧
      m₁.HasFile p r content ∧ ∀ q, q ≠ r → m₁.files.node? q = m.files.node? q := by
  obtain ⟨r, node, executable, hplace, -, hne, hgrowth, rfl⟩ := write_spec hm hwrite
  refine ⟨r, node, hplace, rfl, rfl, hgrowth, ⟨hm.growth hgrowth, executable, ?_⟩, ?_⟩
  · have hagain := hm.place_growth hgrowth hplace
    rwa [node?_put hne, if_pos rfl] at hagain
  · intro q hq
    change (m.files.put r _).node? q = _
    rw [node?_put hne, if_neg hq]

/-- **A file added**: the files that were there under other names are there still -/
theorem Adds.write (h : m.Adds m₁ chain files) (hplain : IsPlain name)
    (hothers : ∀ file ∈ files, ∃ base' other,
      file.1 = Path.join base' other ∧ IsPlain other ∧ name ≠ other)
    (hwrite : m₁.write (Path.join base name) content = (.ok (), m₂)) :
    m.Adds m₂ chain ((Path.join base name, content) :: files) := by
  have hkept : ∀ file ∈ files, ∀ q, m₁.HasFile file.1 q file.2 → m₂.HasFile file.1 q file.2 := by
    rintro ⟨p, old⟩ hfile q hthere
    obtain ⟨base', other, hp, hother, hdiff⟩ := hothers (p, old) hfile
    obtain rfl : p = Path.join base' other := hp
    obtain ⟨above, rfl⟩ := hthere.named hother
    exact hthere.write hplain hdiff hwrite
  obtain ⟨r, -, -, hm₂, hdirectory, hgrowth, hnew, hplaces⟩ := file_of_write h.orderly hwrite
  refine ⟨?_, hnew.orderly, ?_, ?_⟩
  · rw [hm₂, h.same]
    rfl
  · intro file hfile
    rcases List.mem_cons.1 hfile with rfl | hfile
    · exact ⟨r, hnew⟩
    · obtain ⟨q, hq⟩ := h.present file hfile
      exact ⟨q, hkept file hfile q hq⟩
  · intro q
    by_cases hq : q = r
    · subst hq
      exact .inr (.inr ⟨_, List.mem_cons_self, hnew⟩)
    · rcases h.others q with hsame | ⟨hnone, p, hp, hfind⟩ | ⟨file, hfile, hthere⟩
      · exact .inl ((hplaces q hq).trans hsame)
      · rw [hdirectory]
        exact .inr (.inl ⟨hnone, p, hp, h.orderly.find_growth hgrowth hfind⟩)
      · exact .inr (.inr ⟨file, List.mem_cons_of_mem _ hfile, hkept file hfile q hthere⟩)

/-- **A file written again** has the new content, and nothing else changes -/
theorem Adds.rewrite {p : Text} {old : Bytes} (h : m.Adds m₁ chain [(p, old)])
    (hwrite : m₁.write p content = (.ok (), m₂)) : m.Adds m₂ chain [(p, content)] := by
  obtain ⟨r, node, hplace, hm₂, hdirectory, hgrowth, hnew, hplaces⟩ := file_of_write h.orderly hwrite
  refine ⟨?_, hnew.orderly, ?_, ?_⟩
  · rw [hm₂, h.same]
    rfl
  · intro file hfile
    obtain rfl := List.mem_singleton.1 hfile
    exact ⟨r, hnew⟩
  · intro q
    by_cases hq : q = r
    · subst hq
      exact .inr (.inr ⟨_, List.mem_cons_self, hnew⟩)
    · rcases h.others q with hsame | ⟨hnone, p', hp', hfind⟩ | ⟨file, hfile, hthere⟩
      · exact .inl ((hplaces q hq).trans hsame)
      · rw [hdirectory]
        exact .inr (.inl ⟨hnone, p', hp', h.orderly.find_growth hgrowth hfind⟩)
      · obtain rfl := List.mem_singleton.1 hfile
        obtain ⟨executable, hthere⟩ := hthere.place
        rw [hthere] at hplace
        cases hplace
        exact absurd rfl hq

/-- a file that is there is read by its path -/
theorem HasFile.read_path {p : Text} (h : m.HasFile p r content) : m.read p = .ok content := by
  obtain ⟨executable, hplace⟩ := h.place
  rw [Machine.read, FileSystem.read, find_of_place hplace]

end Machine

/-! ## Writes on a disk -/

/-- **Whatever a disk makes of a write**: there is no file to write to, or a beginning was written, or
all of it was -/
theorem Disk.write_cases (disk : Disk) (m : Machine) (p : Text) (content : Bytes) :
    (∃ e, disk.write m p content = (.error e, m)) ∨
    (∃ kept cause m', disk.transfer m p content = .brokenOff kept cause ∧
      m.write p (content.take kept) = (.ok (), m') ∧ disk.write m p content = (.error cause, m')) ∨
    ∃ m', m.write p content = (.ok (), m') ∧ disk.write m p content = (.ok (), m') := by
  unfold Disk.write
  cases htransfer : disk.transfer m p content with
  | refused cause => exact .inl ⟨cause, rfl⟩
  | complete =>
    rcases hwrite : m.write p content with ⟨e | ⟨⟩, m'⟩
    · obtain rfl := Machine.write_of_error hwrite
      exact .inl ⟨e, rfl⟩
    · exact .inr (.inr ⟨m', rfl, rfl⟩)
  | brokenOff kept cause =>
    rcases hwrite : m.write p (content.take kept) with ⟨e | ⟨⟩, m'⟩
    · obtain rfl := Machine.write_of_error hwrite
      refine .inl ⟨e, ?_⟩
      simp only [hwrite]
    · refine .inr (.inl ⟨kept, cause, m', rfl, hwrite, ?_⟩)
      simp only [hwrite]

/-! ## Outputs -/

namespace Options

/-- the files of a compile by path and content; a loader may be written over the cache -/
def outputs (o : Options) (cache loader : Bytes) : List (Text × Bytes) :=
  if o.createLoader then
    if o.loaderPath = o.cachePath then [(o.loaderPath, loader)]
    else [(o.loaderPath, loader), (o.cachePath, cache)]
  else [(o.cachePath, cache)]

theorem mem_outputs {o : Options} {cache loader : Bytes}
    (h : o.createLoader = true → o.loaderPath ≠ o.cachePath) :
    (o.cachePath, cache) ∈ o.outputs cache loader := by
  unfold outputs
  split_ifs with hcreate hsame
  · exact absurd hsame (h hcreate)
  · exact List.mem_cons_of_mem _ List.mem_cons_self
  · exact List.mem_cons_self

end Options

/-- what a compile has added that stopped with an error after it had a cache -/
inductive Stopped (disk : Disk) (o : Options) (cache loader : Bytes) (m m' : Machine) :
    CompileError → Prop where
  | creatingDirectory (cause : OsError) : m.Adds m' (Path.ancestors o.output) [] →
    Stopped disk o cache loader m m' (.file .createDirectory o.output cause)
  /-- there was no file to write the cache to -/
  | openingCache (cause : OsError) : m.Adds m' (Path.ancestors o.output) [] →
    Stopped disk o cache loader m m' (.file .writeCache o.cachePath cause)
  /-- the disk broke the cache off -/
  | fillingCache (made : Machine) (kept : Nat) (cause : OsError) :
    disk.transfer made o.cachePath cache = .brokenOff kept cause →
    m.Adds m' (Path.ancestors o.output) [(o.cachePath, cache.take kept)] →
    Stopped disk o cache loader m m' (.file .writeCache o.cachePath cause)
  /-- there was no file to write the loader to -/
  | openingLoader (cause : OsError) : o.createLoader = true →
    m.Adds m' (Path.ancestors o.output) [(o.cachePath, cache)] →
    Stopped disk o cache loader m m' (.file .writeLoader o.loaderPath cause)
  /-- the disk broke the loader off -/
  | fillingLoader (written : Machine) (kept : Nat) (cause : OsError) : o.createLoader = true →
    disk.transfer written o.loaderPath loader = .brokenOff kept cause →
    m.Adds m' (Path.ancestors o.output) (o.outputs cache (loader.take kept)) →
    Stopped disk o cache loader m m' (.file .writeLoader o.loaderPath cause)

/-- what writing the outputs has added, whatever became of it -/
def Written (disk : Disk) (o : Options) (cache loader : Bytes) (m : Machine) :
    Except CompileError (Option Text) × Machine → Prop
  | (.error e, m') => Stopped disk o cache loader m m' e
  | (.ok loaderPath, m') =>
    loaderPath = (if o.createLoader then some o.loaderPath else none) ∧
    m.Adds m' (Path.ancestors o.output) (o.outputs cache loader)

namespace Toolchain

variable {σ : Type} {T : Toolchain σ} {o : Options} {m m₁ m₂ : Machine} {cache content : Bytes}
  {script : Text}

/-- a loader, or a beginning of it, behind a cache that is in place -/
theorem adds_loader (hadds : m.Adds m₁ (Path.ancestors o.output) [(o.cachePath, cache)])
    (hname : IsPlain o.compiledName) (hloader : IsPlain o.loaderName) (hcreate : o.createLoader = true)
    (hwrite : m₁.write o.loaderPath content = (.ok (), m₂)) :
    m.Adds m₂ (Path.ancestors o.output) (o.outputs cache content) := by
  rw [Options.outputs, if_pos hcreate]
  split_ifs with hsame
  · rw [hsame] at hwrite ⊢
    exact hadds.rewrite hwrite
  · refine hadds.write hloader ?_ hwrite
    intro file hfile
    obtain rfl := List.mem_singleton.1 hfile
    refine ⟨o.output, o.compiledName, rfl, hname, ?_⟩
    intro heq
    exact hsame (by rw [Options.loaderPath, Options.cachePath, heq])

theorem writeLoaderOn_stages (disk : Disk)
    (hadds : m.Adds m₁ (Path.ancestors o.output) [(o.cachePath, cache)])
    (hname : IsPlain o.compiledName) (hloader : IsPlain o.loaderName)
    (hrender : Loader.render o.extension T.layouts = .ok script) :
    Written disk o cache (Utf8.encode script) m (T.writeLoaderOn disk o m₁) := by
  unfold writeLoaderOn
  by_cases hcreate : o.createLoader = true
  · rw [if_pos hcreate]
    rcases disk.write_cases m₁ o.loaderPath (Utf8.encode script) with
      ⟨e, hwrite⟩ | ⟨kept, cause, m₂, htransfer, hpart, hwrite⟩ | ⟨m₂, hwhole, hwrite⟩
    all_goals
      rw [Options.loaderPath] at hwrite
      simp only [Loader.writeOn, hrender, hwrite]
    · exact .openingLoader e hcreate hadds
    · exact .fillingLoader m₁ kept cause hcreate htransfer
        (adds_loader hadds hname hloader hcreate hpart)
    · exact ⟨(if_pos hcreate).symm, adds_loader hadds hname hloader hcreate hwhole⟩
  · rw [if_neg hcreate]
    refine ⟨(if_neg hcreate).symm, ?_⟩
    rwa [Options.outputs, if_neg hcreate]

/-- what was added when the outputs were written, or could not be -/
theorem writeOutputsOn_stages (disk : Disk) (hm : m.files.Orderly m.directory)
    (hname : IsPlain o.compiledName) (hloader : IsPlain o.loaderName)
    (hrender : Loader.render o.extension T.layouts = .ok script) (cache : Bytes) :
    Written disk o cache (Utf8.encode script) m (T.writeOutputsOn disk o cache m) := by
  have hadds := Machine.adds_makeDirectories hm disk o.output
  have hempty : ∀ file ∈ ([] : List (Text × Bytes)), ∃ base other,
      file.1 = Path.join base other ∧ IsPlain other ∧ o.compiledName ≠ other :=
    fun file hfile => absurd hfile List.not_mem_nil
  rcases hmake : disk.makeDirectories m o.output with ⟨made, m₁⟩
  rw [hmake] at hadds
  unfold writeOutputsOn
  rw [hmake]
  cases made with
  | error e => exact .creatingDirectory e hadds
  | ok =>
    dsimp only
    rcases disk.write_cases m₁ o.cachePath cache with
      ⟨e, hwrite⟩ | ⟨kept, cause, m₂, htransfer, hpart, hwrite⟩ | ⟨m₂, hwhole, hwrite⟩
    all_goals
      rw [hwrite]
      dsimp only
    · exact .openingCache e hadds
    · exact .fillingCache m₁ kept cause htransfer (hadds.write hname hempty hpart)
    · exact writeLoaderOn_stages disk (hadds.write hname hempty hwhole) hname hloader hrender

/-- compiling leaves the files alone -/
theorem compileSource_files (T : Toolchain σ) (o : Options) (source : Text) (m : Machine) (s : σ) :
    (T.compileSource o source m s).2.1.files = m.files ∧
      (T.compileSource o source m s).2.1.directory = m.directory := by
  unfold compileSource
  by_cases helectron : o.electron = true
  · rw [if_pos helectron]
    unfold compileIsolated
    cases m.locateElectron o.electronPath (Path.directory o.filename) with
    | error e => exact ⟨rfl, rfl⟩
    | ok executable =>
      simp only [Isolated.compile]
      cases m.program m.directory executable with
      | error e => exact ⟨rfl, rfl⟩
      | ok program => exact ⟨rfl, rfl⟩
  · rw [if_neg helectron]
    cases T.engine with
    | none => exact ⟨rfl, rfl⟩
    | some E => exact ⟨rfl, rfl⟩

theorem files_of_compileSource {T : Toolchain σ} {o : Options} {source : Text} {m m' : Machine}
    {s s' : σ} {result : Except CompileError Bytes}
    (h : T.compileSource o source m s = (result, m', s')) :
    m'.files = m.files ∧ m'.directory = m.directory := by
  have hfiles := T.compileSource_files o source m s
  rwa [h] at hfiles

/-- **Stages of a compile**, on any disk. As long as there is no cache, the files are those of before.
An error behind that is one of `Stopped`: no more than directories on the output path were added, or
the loader is all that is missing, but for the file that the disk broke off, which holds a beginning of
what was to be in it. A compile that succeeds has added exactly its outputs and directories on the
output path; the report names them and has the size of the cache and the length of what was compiled,
which the header of a simulated engine's cache declares, up to the width of its field. -/
theorem compileFile_stages (disk : Disk) (T : Toolchain σ) {d : Draft} (hd : d.resolve = .ok o)
    (hm : m.files.Orderly m.directory) (s : σ) :
    match m.readSource o.filename with
    | .error e => T.compileFileOn disk o m s = (.error e, m, s)
    | .ok text =>
      let source := Source.prepare o.asModule text
      let (compiled, m₁, s₁) := T.compileSource o source m s
      m₁.files = m.files ∧ m₁.directory = m.directory ∧
      match compiled with
      | .error e => T.compileFileOn disk o m s = (.error e, m₁, s₁)
      | .ok cache =>
        ∃ script, Loader.render o.extension T.layouts = .ok script ∧
        ∃ result m₂, T.compileFileOn disk o m s = (result, m₂, s₁) ∧
        match result with
        | .error e => Stopped disk o cache (Utf8.encode script) m₁ m₂ e
        | .ok report =>
          report = ⟨o.filename, o.cachePath, if o.createLoader then some o.loaderPath else none,
            Text.units source, cache.length⟩ ∧
          m₁.Adds m₂ (Path.ancestors o.output) (o.outputs cache (Utf8.encode script)) ∧
          ((o.createLoader = true → o.loaderPath ≠ o.cachePath) →
            m₂.read report.cachePath = .ok cache) ∧
          ∀ E : SimulatedEngine, (E.compile source).1 = .ok cache →
            Header.declaredLength cache = .ok (UInt32.ofNat report.sourceLength) := by
  obtain ⟨hloader, hnormal, stem, bare, hstem, hbare, -, hcompiled⟩ := Draft.resolve_spec hd
  have hname : IsPlain o.compiledName := hcompiled ▸ hstem.extended hbare
  cases hread : m.readSource o.filename with
  | error e => simp only [compileFileOn, hread]
  | ok text =>
    dsimp only
    generalize hsource : Source.prepare o.asModule text = source
    obtain ⟨hfiles, hdirectory⟩ := T.compileSource_files o source m s
    rcases hcompile : T.compileSource o source m s with ⟨compiled, m₁, s₁⟩
    rw [hcompile] at hfiles hdirectory
    refine ⟨hfiles, hdirectory, ?_⟩
    cases compiled with
    | error e => simp only [compileFileOn, hread, hsource, hcompile]
    | ok cache =>
      have hm₁ : m₁.files.Orderly m₁.directory := by rwa [hfiles, hdirectory]
      obtain ⟨script, hrender⟩ : ∃ script, Loader.render o.extension T.layouts = .ok script :=
        ⟨_, by rw [Loader.render, hnormal]⟩
      have hstages := T.writeOutputsOn_stages disk hm₁ hname hloader hrender cache
      rcases hwrite : T.writeOutputsOn disk o cache m₁ with ⟨written, m₂⟩
      rw [hwrite] at hstages
      refine ⟨script, hrender, ?_⟩
      cases written with
      | error e =>
        refine ⟨.error e, m₂, ?_, hstages⟩
        simp only [compileFileOn, hread, hsource, hcompile, hwrite]
      | ok loaderPath =>
        obtain ⟨rfl, hadds⟩ := hstages
        refine ⟨.ok _, m₂, ?_, rfl, hadds, ?_, ?_⟩
        · simp only [compileFileOn, hread, hsource, hcompile, hwrite]
        · intro hdiff
          obtain ⟨r, hfile⟩ := hadds.present _ (Options.mem_outputs hdiff)
          exact hfile.read_path
        · intro E hE
          obtain rfl := SimulatedEngine.eq_cacheOf_of_compile hE
          exact SimulatedEngine.declaredLength_sealed source E.length_fingerprint

end Toolchain

namespace SimulatedEngine

/-- a disk that has room for files up to a size -/
def tight (room : Nat) : Disk where
  transfer _ _ content :=
    if (content.drop room).isEmpty then .complete else .brokenOff room .noSpace
  founding _ _ := .complete

/-- a source to be compiled into a directory that is not there, with this loader beside it -/
def stagedDraft (loaderName : Text) : Draft :=
  { Draft.empty with
    filename := "a.js"
    output := some "out/bin//"
    createLoader := true
    loaderName := some loaderName }

def stagedOptions (loaderName : Text) : Options :=
  ⟨"a.js", "out/bin//", false, false, none, true, loaderName, Extension.standard⟩

def stagedMachine : Machine := ⟨⟨[(["a.js"], .file (Utf8.encode "[7]") false none)]⟩, [], [], []⟩

theorem orderly_staged : stagedMachine.files.Orderly stagedMachine.directory where
  linkFree := linkFree_of_nodes (by simp [stagedMachine])
  stands := stands_root _

def stagedResult (disk : Disk) (loaderName : Text) :
    Except CompileError Report × Machine × SimulatedEngine :=
  (toolchain .builtIn .complete).compileFileOn disk (stagedOptions loaderName) stagedMachine standard

/-- On a sound disk, a loader named like the directory above stops the compile when the cache is
there; under another name it is written as well. A disk with room for a hundred bytes takes the cache
and a hundred bytes of the loader. -/
theorem compileFile_stages_above :
    (stagedDraft "..").resolve = .ok (stagedOptions "..") ∧
    (stagedResult .sound "..").1 = .error (.file .writeLoader "out/bin//.." .isADirectory) ∧
    stagedMachine.Adds (stagedResult .sound "..").2.1 (Path.ancestors "out/bin//")
      [("out/bin//a.bin", standard.cacheOf "[7]")] ∧
    (∃ script, stagedMachine.Adds (stagedResult .sound "l.js").2.1 (Path.ancestors "out/bin//")
      [("out/bin//l.js", Utf8.encode script), ("out/bin//a.bin", standard.cacheOf "[7]")]) ∧
    (∃ script, Stopped (tight 100) (stagedOptions "l.js") (standard.cacheOf "[7]")
      (Utf8.encode script) stagedMachine (stagedResult (tight 100) "l.js").2.1
      (.file .writeLoader "out/bin//l.js" .noSpace)) ∧
    (stagedResult (tight 100) "l.js").2.1.read "out/bin//a.bin" = .ok (standard.cacheOf "[7]") ∧
    ((stagedResult (tight 100) "l.js").2.1.read "out/bin//l.js").map List.length = .ok 100 := by
  have habove : (stagedResult .sound "..").1 =
      .error (.file .writeLoader "out/bin//.." .isADirectory) := rfl
  have hbeside : (stagedResult .sound "l.js").1 = .ok ⟨"a.js", "out/bin//a.bin",
      some "out/bin//l.js", 3, (standard.cacheOf "[7]").length⟩ := rfl
  have hfull : (stagedResult (tight 100) "l.js").1 =
      .error (.file .writeLoader "out/bin//l.js" .noSpace) := rfl
  obtain ⟨-, -, script₁, -, result₁, m₁, hresult₁, hstage₁⟩ :=
    (toolchain .builtIn .complete).compileFile_stages .sound (d := stagedDraft "..")
      (o := stagedOptions "..") rfl orderly_staged standard
  obtain ⟨-, -, script₂, -, result₂, m₂, hresult₂, hstage₂⟩ :=
    (toolchain .builtIn .complete).compileFile_stages .sound (d := stagedDraft "l.js")
      (o := stagedOptions "l.js") rfl orderly_staged standard
  obtain ⟨-, -, script₃, -, result₃, m₃, hresult₃, hstage₃⟩ :=
    (toolchain .builtIn .complete).compileFile_stages (tight 100) (d := stagedDraft "l.js")
      (o := stagedOptions "l.js") rfl orderly_staged standard
  obtain rfl := (congrArg Prod.fst hresult₁).symm.trans habove
  obtain rfl := (congrArg Prod.fst hresult₂).symm.trans hbeside
  obtain rfl := (congrArg Prod.fst hresult₃).symm.trans hfull
  obtain rfl : m₁ = (stagedResult .sound "..").2.1 := (congrArg (·.2.1) hresult₁).symm
  obtain rfl : m₂ = (stagedResult .sound "l.js").2.1 := (congrArg (·.2.1) hresult₂).symm
  obtain rfl : m₃ = (stagedResult (tight 100) "l.js").2.1 := (congrArg (·.2.1) hresult₃).symm
  refine ⟨rfl, habove, ?_, ⟨script₂, hstage₂.2.1⟩, ⟨script₃, hstage₃⟩, rfl, rfl⟩
  cases hstage₁ with
  | openingLoader cause hcreate hadds => exact hadds
  | fillingLoader written kept cause hcreate hbroken hadds => cases hbroken

/-- a source next to the cache of an older one -/
def overwrittenMachine : Machine :=
  ⟨⟨[(["a.js"], .file (Utf8.encode "[7]") false none), (["a.bin"], .file [1, 2, 3] false none)]⟩,
    [], [], []⟩

/-- **A cache that cannot be written may be lost**: on a disk without room, the file of the older cache
is emptied before the write fails. -/
theorem not_compileFile_untouched :
    ¬∀ (disk : Disk) (T : Toolchain SimulatedEngine) (d : Draft) (o : Options) (m m' : Machine)
      (E E' : SimulatedEngine) (cause : OsError), d.resolve = .ok o →
      m.files.Orderly m.directory →
      T.compileFileOn disk o m E = (.error (.file .writeCache o.cachePath cause), m', E') →
      ∀ p content, m.read p = .ok content → m'.read p = .ok content := by
  intro huntouched
  have horderly : overwrittenMachine.files.Orderly overwrittenMachine.directory :=
    ⟨linkFree_of_nodes (by simp [overwrittenMachine]), stands_root _⟩
  have hlost := huntouched (tight 0) (toolchain .builtIn .complete)
    { Draft.empty with filename := "a.js" } _ overwrittenMachine _ standard _ .noSpace rfl horderly
    rfl "a.bin" [1, 2, 3] rfl
  cases hlost

end SimulatedEngine

end CodeCache
