/-
From a source file through its cache to the value of its module.

Main result, `compileFile_require`: on a machine without symbolic links, a module compiled on a
simulated engine and required by its cache path through a fresh table gives the value of the source,
and the engine has compiled two texts, the prepared source and the reference, and run once. What the
way there rests on:
- the extension a cache is written with is the one its canonical path is routed by (`route_text`),
- the engine accepts its own cache after patching, and unwraps what was wrapped (`loadBytes_own`),
- the canonical path is that of the file written, as long as it can be looked up
  (`canonical_of_place`).

It cannot always be looked up. A relative path may lead to a file whose absolute path is longer than
an operating system takes; the cache is written there and cannot be required
(`not_require_unconditionally`).
-/
import CodeCache.Proofs.Compile.Outputs
import CodeCache.Proofs.Loading.Tables

namespace CodeCache

/-- what is behind the last point of an extension is what the absolute path of a cache is routed by -/
theorem ModuleTable.route_text {above : Route} {stem extension before after : Text}
    (hstem : stem ≠ []) (hcut : Text.splitLast? '.' extension = some (before, after))
    (hnames : ∀ name ∈ above ++ [stem ++ extension], Route.IsName name) :
    route (Route.text (above ++ [stem ++ extension])) = '.' :: after := by
  rw [route, Path.extension?, Path.fileName?_text hnames, Option.bind_some,
    Path.cutName_append hstem hcut]

namespace SimulatedEngine

/-! ## Loading an own cache -/

/-- a wrapped source is longer than the length that no placeholder has -/
theorem one_lt_units_wrap (body : Text) : 1 < Text.units (ModuleWrapper.wrap body) := by
  have htail : Text.units ModuleWrapper.tail = 4 := by decide
  rw [ModuleWrapper.wrap, Text.units_append, htail]
  omega

theorem not_refused_own (E : SimulatedEngine) {body : Text}
    (h : Text.units (ModuleWrapper.wrap body) < 2 ^ 32) :
    ¬Refused E (E.remembering (ModuleWrapper.wrap body)) (ModuleWrapper.wrap body) := by
  have hlong := one_lt_units_wrap body
  rintro (hone | ⟨-, hbuild⟩)
  · rw [Nat.mod_eq_of_lt h] at hone
    omega
  · exact hbuild rfl

/-- the engine that made the cache of a module gives the value of the module -/
theorem loadBytes_own (E : SimulatedEngine) (filename : Text) {body : Text}
    (h : Text.units (ModuleWrapper.wrap body) < 2 ^ 32) :
    ∃ buffer handler,
      (CacheHandler.new .builtIn .module).loadBytes engine filename
          (E.cacheOf (ModuleWrapper.wrap body)) (E.remembering (ModuleWrapper.wrap body)) =
        (.ok (moduleValue body), buffer, handler,
          (E.remembering (ModuleWrapper.wrap body)).loadedOnce) := by
  set C := E.remembering (ModuleWrapper.wrap body) with hC
  have haccepts := (accepts_patched_iff E C (ModuleWrapper.wrap body)).2 (not_refused_own E h)
  have hvalue := evaluate_wrapped (length_patchedSeal E C) body
  rw [loadBytes_new, run, scriptOf, if_pos haccepts, hvalue]
  exact ⟨_, _, rfl⟩

/-! ## Requiring what was compiled -/

/-- loading the cache from its absolute path -/
theorem load_compiled {m : Machine} {p body : Text} {r : Route} (E : SimulatedEngine)
    (hfile : m.HasFile p r (E.cacheOf (ModuleWrapper.wrap body)))
    (hsize : Utf8.size r.text ≤ FileSystem.longestPath)
    (hunits : Text.units (ModuleWrapper.wrap body) < 2 ^ 32) :
    ∃ handler, (CacheHandler.loading engine).load (CacheHandler.new .builtIn .module) r.text
        (m, E.remembering (ModuleWrapper.wrap body)) =
      (.ok (moduleValue body), handler, m,
        (E.remembering (ModuleWrapper.wrap body)).loadedOnce) := by
  obtain ⟨buffer, handler, hload⟩ := loadBytes_own E r.text hunits
  refine ⟨handler, ?_⟩
  simp only [CacheHandler.loading, CacheHandler.load, hfile.read hsize, hload]

theorem loadedOnce_remembering (E : SimulatedEngine) (source : Text) :
    (E.remembering source).loadedOnce =
      { E with compiled := E.compiled ++ [source, referenceSource], runs := E.runs + 1 } := by
  simp [loadedOnce, remembering]

/-- requiring a cache by its path, through a table that has the handler for its extension only -/
theorem require_compiled {m : Machine} {p stem bare body : Text} {above : Route}
    (E : SimulatedEngine)
    (hfile : m.HasFile p (above ++ [stem ++ '.' :: bare]) (E.cacheOf (ModuleWrapper.wrap body)))
    (hstem : stem ≠ []) (hbare : '.' ∉ bare)
    (hunits : Text.units (ModuleWrapper.wrap body) < 2 ^ 32) :
    let table := ModuleTable.empty.setHandler ('.' :: bare) (CacheHandler.new .builtIn .module)
    let required := table.require (CacheHandler.loading engine) p
      (m, E.remembering (ModuleWrapper.wrap body))
    match m.canonical p with
    | .ok _ =>
      required.1 = .ok (moduleValue body) ∧
        required.2.2 = (m, (E.remembering (ModuleWrapper.wrap body)).loadedOnce)
    | .error e =>
      e = .nameTooLong ∧
        required = (.error (.file .resolve p e), table, m,
          E.remembering (ModuleWrapper.wrap body)) := by
  intro table required
  obtain ⟨executable, hplace⟩ := hfile.place
  obtain ⟨-, hnames, -⟩ := hfile.orderly.place_spec hplace
  have hhandler : table.handlers.lookup
      (ModuleTable.route (Route.text (above ++ [stem ++ '.' :: bare]))) =
        some (CacheHandler.new .builtIn .module) := by
    have hcut : Text.splitLast? '.' ('.' :: bare) = some ([], bare) := Text.splitLast?_append hbare []
    rw [ModuleTable.route_text hstem hcut hnames, ModuleTable.handlers_setHandler, if_pos rfl]
  rcases hfile.orderly.canonical_of_place hplace (by simp) with ⟨hcanonical, hsize⟩ | hlong
  · obtain ⟨handler, hload⟩ := load_compiled E hfile hsize hunits
    have hrequire : required = _ := ModuleTable.require_call hcanonical rfl hhandler
    rw [show m.canonical p = _ from hcanonical]
    dsimp only
    rw [hrequire, hload]
    exact ⟨rfl, rfl⟩
  · have hrequire : required = _ := ModuleTable.require_of_error hlong
    rw [show m.canonical p = _ from hlong]
    exact ⟨rfl, hrequire⟩

/-- **A compiled module is worth its source.** On a machine without symbolic links, whose working
directory is there, let a module be compiled on an engine, from a text `t`, under an extension with
one point and with a loader, if there is one, that does not replace the cache. The extension can
then be registered, and requiring the cache path gives the value of `t` without its interpreter
line; the engine has compiled the prepared source and the reference, in this order, and run once.
This is so whenever the cache path can be made canonical, which it can if it is absolute or short
enough behind the working directory. Otherwise the error says that a name is too long, and the
engine has done nothing more. -/
theorem compileFile_require {layouts : LayoutTable} {flags : EngineFlags} {m m' : Machine}
    {d : Draft} {o : Options} {t : Text} {report : Report} {E E' : SimulatedEngine}
    (hm : m.files.Orderly m.directory) (hd : d.resolve = .ok o) (hmodule : o.asModule = true)
    (helectron : o.electron = false) (hpoint : '.' ∉ o.extension.tail)
    (hloader : o.createLoader = true → o.loaderPath ≠ o.cachePath)
    (hsource : m.read o.filename = .ok (Utf8.encode t))
    (hcompile : (toolchain layouts flags).compileFile o m E = (.ok report, m', E'))
    (hunits : Text.units (Source.prepare true t) < 2 ^ 32) :
    ∃ table, ModuleTable.empty.register o.extension (CacheHandler.new .builtIn .module) =
        .ok table ∧
      let required := table.require (CacheHandler.loading engine) report.cachePath (m', E')
      (match m'.canonical report.cachePath with
      | .ok _ =>
        required.1 = .ok (moduleValue (Source.stripInterpreter t)) ∧
          required.2.2 = (m', { E with
            compiled := E.compiled ++ [Source.prepare true t, referenceSource]
            runs := E.runs + 1 })
      | .error e =>
        e = .nameTooLong ∧
          required = (.error (.file .resolve report.cachePath e), table, m',
            { E with compiled := E.compiled ++ [Source.prepare true t] })) ∧
      (Path.isAbsolute report.cachePath = true ∨
          Utf8.size m.directory.text + 1 + Utf8.size report.cachePath ≤ FileSystem.longestPath →
        ∃ canonical, m'.canonical report.cachePath = .ok canonical) := by
  obtain ⟨rfl, hpath, hdirectory, above, hfile⟩ :=
    compileFile_spec hm hd helectron hloader hsource hcompile
  obtain ⟨-, hnormal, stem, bare, hstem, -, hextension, hname⟩ := Draft.resolve_spec hd
  have hprepare : Source.prepare true t = ModuleWrapper.wrap (Source.stripInterpreter t) := rfl
  rw [hmodule, hname, hprepare] at hfile
  rw [hextension] at hpoint
  rw [hmodule, hprepare, hpath, ← hdirectory]
  refine ⟨ModuleTable.empty.setHandler o.extension (CacheHandler.new .builtIn .module),
    by rw [ModuleTable.register, hnormal]; rfl, ?_, ?_⟩
  · rw [hextension, ← loadedOnce_remembering]
    exact require_compiled E hfile hstem.1 hpoint hunits
  · intro hfits
    obtain ⟨executable, hplace⟩ := hfile.place
    exact ⟨_, hfile.orderly.canonical_of_fits hplace hfits⟩

/-! ## A name with points, and a path that is too long -/

/-- a source whose name has several points, and a loader asked for -/
def pointedDraft : Draft :=
  { Draft.empty with
    filename := "src/.app.config.js"
    output := some "../out//"
    asModule := true
    createLoader := true }

def pointedOptions : Options :=
  ⟨"src/.app.config.js", "../out//", true, false, none, true, "loader.js", ".bin"⟩

/-- a module with an interpreter line -/
def pointedText : Text := "#!n\nmodule.exports = true;"

/-- the source below the working directory `/work` -/
def pointedMachine : Machine :=
  ⟨⟨[(["work"], .directory), (["work", "src"], .directory),
    (["work", "src", ".app.config.js"], .file (Utf8.encode pointedText) false none)]⟩,
    ["work"], [], []⟩

def pointedResult : Except CompileError Report × Machine × SimulatedEngine :=
  (toolchain .builtIn .complete).compileFile pointedOptions pointedMachine standard

def pointedReport : Report :=
  ⟨pointedOptions.filename, "../out//.app.config.bin", some "../out//loader.js",
    Text.units (Source.prepare true pointedText),
    (standard.cacheOf (Source.prepare true pointedText)).length⟩

theorem orderly_pointed : pointedMachine.files.Orderly pointedMachine.directory where
  linkFree := FileSystem.linkFree_of_nodes (by simp [pointedMachine])
  stands := by decide +kernel

/-- the hidden file `.app.config.js` becomes `/out/.app.config.bin`, and that gives its export -/
theorem compileFile_require_pointed :
    pointedDraft.resolve = .ok pointedOptions ∧
    pointedResult.1 = .ok pointedReport ∧
    ∃ table, ModuleTable.empty.register ".bin" (CacheHandler.new .builtIn .module) = .ok table ∧
      let required := table.require (CacheHandler.loading engine) "../out//.app.config.bin"
        (pointedResult.2.1, pointedResult.2.2)
      required.1 = .ok (.bool true) ∧
      required.2.2.2 = { standard with
        compiled := [Source.prepare true pointedText, referenceSource]
        runs := 1 } := by
  have hresolve : pointedDraft.resolve = .ok pointedOptions := rfl
  have hreport : pointedResult.1 = .ok pointedReport := rfl
  have hvalue : moduleValue (Source.stripInterpreter pointedText) = .bool true := by cbv
  have hcompile : (toolchain .builtIn .complete).compileFile pointedOptions pointedMachine standard =
      (.ok pointedReport, pointedResult.2.1, pointedResult.2.2) := Prod.ext hreport rfl
  obtain ⟨table, hregister, hrequire, hfits⟩ := compileFile_require (t := pointedText)
    orderly_pointed hresolve rfl rfl (by decide) (fun _ => by decide) rfl hcompile (by decide)
  obtain ⟨canonical, hcanonical⟩ := hfits (Or.inr (by decide))
  rw [hcanonical, hvalue] at hrequire
  exact ⟨hresolve, hreport, table, hregister, hrequire.1, congrArg Prod.snd hrequire.2⟩

/-- sixteen names of 252 bytes, and one of 40 -/
def deepPlace : Route := List.replicate 16 (List.replicate 63 '𝒅') ++ [List.replicate 10 '𝒅']

/-- the cache goes to the lowest of seventeen directories, by a relative path -/
def deepDraft : Draft :=
  { Draft.empty with
    filename := "ab.js"
    output := some (Text.join ['/'] deepPlace)
    asModule := true }

def deepOptions : Options :=
  ⟨"ab.js", Text.join ['/'] deepPlace, true, false, none, false, Options.standardLoaderName,
    Extension.standard⟩

/-- the directories are there already, below the working directory, the root -/
def deepMachine : Machine :=
  ⟨⟨(["ab.js"], .file (Utf8.encode "1") false none) ::
    (List.range 17).map fun n => (deepPlace.take (n + 1), .directory)⟩, [], [], []⟩

def deepResult : Except CompileError Report × Machine × SimulatedEngine :=
  (toolchain .builtIn .complete).compileFile deepOptions deepMachine standard

theorem resolve_deep : deepDraft.resolve = .ok deepOptions := rfl

theorem orderly_deep : deepMachine.files.Orderly deepMachine.directory where
  linkFree := FileSystem.linkFree_of_nodes (by
    intro entry hentry target
    rcases List.mem_cons.1 hentry with rfl | hentry
    · simp
    · obtain ⟨n, -, rfl⟩ := List.mem_map.1 hentry
      simp)
  stands := FileSystem.stands_root _

/-- it compiled, and the cache path cannot be made canonical -/
def deepRefused : Bool :=
  match deepResult with
  | (.ok _, m, _) => m.canonical deepOptions.cachePath == .error .nameTooLong
  | _ => false

theorem deepRefused_eq : deepRefused = true := by decide +kernel

/-- **Not every compiled module can be required.** The path of the cache has 4095 bytes and is
relative, so the cache is written, but its absolute path has one byte more. -/
theorem not_require_unconditionally :
    ¬∀ (layouts : LayoutTable) (flags : EngineFlags) (m m' : Machine) (d : Draft) (o : Options)
        (t : Text) (report : Report) (E E' : SimulatedEngine),
      m.files.Orderly m.directory → d.resolve = .ok o → o.asModule = true →
      o.electron = false → '.' ∉ o.extension.tail →
      (o.createLoader = true → o.loaderPath ≠ o.cachePath) →
      m.read o.filename = .ok (Utf8.encode t) →
      (toolchain layouts flags).compileFile o m E = (.ok report, m', E') →
      Text.units (Source.prepare true t) < 2 ^ 32 →
      ∃ table, ModuleTable.empty.register o.extension (CacheHandler.new .builtIn .module) =
          .ok table ∧
        (table.require (CacheHandler.loading engine) report.cachePath (m', E')).1 =
          .ok (moduleValue (Source.stripInterpreter t)) := by
  intro h
  have hrefused := deepRefused_eq
  have hdiff : deepOptions.createLoader = true → deepOptions.loaderPath ≠ deepOptions.cachePath :=
    fun hloader => absurd hloader (by decide)
  have hread : deepMachine.read deepOptions.filename = .ok (Utf8.encode "1") := by decide +kernel
  rcases hresult : deepResult with ⟨result, m', E'⟩
  unfold deepRefused at hrefused
  rw [hresult] at hrefused
  unfold deepResult at hresult
  cases result with
  | error e => cases hrefused
  | ok report =>
    obtain ⟨-, hpath, -, -⟩ := compileFile_spec orderly_deep resolve_deep rfl hdiff hread hresult
    have hlong : m'.canonical report.cachePath = .error .nameTooLong := by
      rw [hpath]
      exact beq_iff_eq.1 hrefused
    obtain ⟨table, -, hvalue⟩ := h .builtIn .complete deepMachine m' deepDraft deepOptions "1" report
      standard E' orderly_deep resolve_deep rfl rfl (by decide) hdiff hread hresult (by decide)
    rw [ModuleTable.require_of_error (L := CacheHandler.loading engine) (w := (m', E')) hlong]
      at hvalue
    cases hvalue

end SimulatedEngine

end CodeCache
