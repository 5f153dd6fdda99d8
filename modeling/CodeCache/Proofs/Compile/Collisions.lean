/-
What a compile overwrites of its own.

A write changes what is read by every path to the same file, and nothing else
(`Machine.read_write`). A compile writes twice, so its source holds what it held unless the cache or
the loader goes to it, and the cache is whole unless the loader goes to it. Main result,
`compileFile_collisions`: this is decided by `Machine.sameFile`, for which the names must be equal, so
a compile with three different names leaves its source and its cache alone.

The options do not see to it (`not_compileFile_intact`): a source named like its cache is replaced by
it, and a loader named like the cache or the source replaces that.
-/
import CodeCache.Proofs.Compile.Stages
import CodeCache.Proofs.System.NamedPlaces

namespace CodeCache

open FileSystem

/-! ## Names of files -/

/-- the last name of a path that leads to a file is the name of the file -/
theorem FileSystem.Orderly.fileName?_of_place {fs : FileSystem} {here r : Route} {p : Text} {n : Node}
    (h : fs.Orderly here) (hplace : fs.place here .through p = .ok ⟨r, some n⟩)
    (hn : n ≠ .directory) : Path.fileName? p = r.getLast? := by
  obtain ⟨name, hlast, hname, hpieces, -⟩ := h.last_of_place hplace (by simpa using hn)
  have hnames : (Path.names p).getLast? = some name := by
    rw [Path.names_eq]
    exact Path.getLast?_filter_of_getLast? hpieces (by simpa using hname.not_here)
  rw [Path.fileName?, hnames, hlast]
  exact if_neg hname.not_above

namespace Machine

variable {m m' : Machine} {p q : Text} {r : Route} {n : Node} {content old : Bytes}

/-! ## Two paths to one file -/

/-- two paths lead to the same place, and there is something -/
def sameFile (m : Machine) (p q : Text) : Bool :=
  match m.files.find m.directory p, m.files.find m.directory q with
  | .ok (r, _), .ok (r', _) => r == r'
  | _, _ => false

theorem sameFile_of_find {r' : Route} {n' : Node} (hp : m.files.find m.directory p = .ok (r, n))
    (hq : m.files.find m.directory q = .ok (r', n')) : m.sameFile p q = decide (r' = r) := by
  rw [sameFile, hp, hq]
  change (r == r') = decide (r' = r)
  rw [Bool.eq_iff_iff, beq_iff_eq, decide_eq_true_iff, eq_comm]

theorem exists_find_of_read (h : m.read p = .ok content) :
    ∃ r executable program, m.files.find m.directory p = .ok (r, .file content executable program) := by
  unfold Machine.read FileSystem.read at h
  rcases hfind : m.files.find m.directory p with e | ⟨r, n⟩
  · rw [hfind] at h
    cases h
  · rw [hfind] at h
    cases n with
    | directory => cases h
    | link target => cases h
    | file bytes executable program =>
      cases h
      exact ⟨r, executable, program, rfl⟩

theorem read_of_find {executable : Bool} {program : Option Program}
    (h : m.files.find m.directory p = .ok (r, .file content executable program)) :
    m.read p = .ok content := by
  rw [Machine.read, FileSystem.read, h]

theorem sameFile_self (h : m.read p = .ok content) : m.sameFile p p = true := by
  obtain ⟨r, executable, program, hfind⟩ := exists_find_of_read h
  rw [sameFile_of_find hfind hfind, decide_eq_true_iff]

/-- paths to one file end in one name -/
theorem fileName?_of_sameFile (hm : m.files.Orderly m.directory) (h : m.sameFile p q = true)
    (hp : m.read p = .ok content) (hq : m.read q = .ok old) :
    Path.fileName? p = Path.fileName? q := by
  obtain ⟨r, executable, program, hfind⟩ := exists_find_of_read hp
  obtain ⟨r', executable', program', hfind'⟩ := exists_find_of_read hq
  rw [sameFile_of_find hfind hfind', decide_eq_true_iff] at h
  rw [hm.fileName?_of_place (place_of_find hfind) (by simp),
    hm.fileName?_of_place (place_of_find hfind') (by simp), h]

/-- a file in a directory has the name it was given -/
theorem fileName?_join_of_read {base name : Text} (hm : m.files.Orderly m.directory)
    (hplain : IsPlain name) (h : m.read (Path.join base name) = .ok content) :
    Path.fileName? (Path.join base name) = some name := by
  obtain ⟨r, executable, program, hfind⟩ := exists_find_of_read h
  have hplace := place_of_find hfind
  obtain ⟨before, hsteps⟩ := exists_steps_join hplain.1 hplain.2 base
  have hlast := hm.getLast?_place hplace (by simp) hsteps
  rw [hm.fileName?_of_place hplace (by simp), hlast, List.getLast?_concat]

/-- what is the same as a file in a directory has its name -/
theorem fileName?_of_sameFile_join {base name : Text} (hm : m.files.Orderly m.directory)
    (hplain : IsPlain name) (h : m.sameFile (Path.join base name) q = true)
    (hp : m.read (Path.join base name) = .ok content) (hq : m.read q = .ok old) :
    Path.fileName? q = some name := by
  rw [← fileName?_of_sameFile hm h hp hq]
  exact fileName?_join_of_read hm hplain hp

/-! ## After a write -/

/-- a write leaves its content where its path leads; all other paths lead where they led -/
theorem find_write (hm : m.files.Orderly m.directory) (h : m.write p content = (.ok (), m')) :
    m'.files.Orderly m'.directory ∧
      ∃ r executable, m'.files.find m'.directory p = .ok (r, .file content executable none) ∧
        ∀ q r' n, m.files.find m.directory q = .ok (r', n) →
          m'.files.find m'.directory q =
            .ok (r', if r' = r then .file content executable none else n) := by
  obtain ⟨r, node, executable, hplace, hnode, hne, hgrowth, rfl⟩ := write_spec hm h
  refine ⟨hm.growth hgrowth, r, executable, ?_, ?_⟩
  · have hagain := hm.place_growth hgrowth hplace
    rw [node?_put hne, if_pos rfl] at hagain
    exact find_of_place hagain
  · intro q r' n hfind
    have hq := place_of_find hfind
    obtain ⟨-, -, hthere⟩ := hm.place_spec hq
    have hagain := hm.place_growth hgrowth hq
    rw [node?_put hne, hthere] at hagain
    refine find_of_place (hagain.trans ?_)
    split_ifs <;> rfl

/-- **One write** is read by every path to its file, and by no other -/
theorem read_write (hm : m.files.Orderly m.directory) (h : m.write p content = (.ok (), m'))
    (hq : m.read q = .ok old) : m'.read q = .ok (if m'.sameFile p q then content else old) := by
  obtain ⟨-, r, executable, hp, hothers⟩ := find_write hm h
  obtain ⟨r', bit, program, hfind⟩ := exists_find_of_read hq
  have hafter := hothers q r' _ hfind
  rw [sameFile_of_find hp hafter]
  by_cases hr : r' = r
  · rw [if_pos hr] at hafter
    rw [if_pos (decide_eq_true hr), read_of_find hafter]
  · rw [if_neg hr] at hafter
    rw [if_neg (by simpa using hr), read_of_find hafter]

theorem read_written (hm : m.files.Orderly m.directory) (h : m.write p content = (.ok (), m')) :
    m'.read p = .ok content := by
  obtain ⟨-, r, executable, hp, -⟩ := find_write hm h
  exact read_of_find hp

/-- no write changes which paths lead to one file -/
theorem sameFile_write {p' : Text} (hm : m.files.Orderly m.directory)
    (h : m.write p' content = (.ok (), m')) {old' : Bytes} (hp : m.read p = .ok old)
    (hq : m.read q = .ok old') : m'.sameFile p q = m.sameFile p q := by
  obtain ⟨-, r, executable, -, hothers⟩ := find_write hm h
  obtain ⟨rp, bitp, programp, hfindp⟩ := exists_find_of_read hp
  obtain ⟨rq, bitq, programq, hfindq⟩ := exists_find_of_read hq
  rw [sameFile_of_find hfindp hfindq,
    sameFile_of_find (hothers p rp _ hfindp) (hothers q rq _ hfindq)]

/-- creating directories changes no file -/
theorem read_makeDirectories (hm : m.files.Orderly m.directory) (hq : m.read q = .ok old) (p : Text) :
    (m.makeDirectories p).2.read q = .ok old := by
  obtain ⟨r, executable, program, hfind⟩ := exists_find_of_read hq
  have hplace := place_of_find hfind
  obtain ⟨-, -, hnode⟩ := hm.place_spec hplace
  have hkept : (m.makeDirectories p).2.files.node? r = some (.file old executable program) := by
    rcases makeDirectories_opened hm p r with hsame | ⟨hnone, -⟩
    · exact hsame.trans hnode
    · rw [hnode] at hnone
      cases hnone
  have hagain := hm.place_growth (makeDirectories_growth hm p) hplace
  rw [show (m.files.makeDirectories m.directory p).2.node? r = _ from hkept] at hagain
  exact read_of_find (m := (m.makeDirectories p).2) (find_of_place hagain)

theorem readSource_ok_iff {text : Text} :
    m.readSource p = .ok text ↔ ∃ bytes, m.read p = .ok bytes ∧ Utf8.decode bytes = .ok text := by
  unfold readSource
  cases hread : m.read p with
  | error e => simp
  | ok bytes =>
    cases hdecode : Utf8.decode bytes with
    | error defect => simp [hdecode]
    | ok t => simp [hdecode]

end Machine

/-! ## A whole compile -/

namespace Toolchain

variable {σ : Type} {T : Toolchain σ} {d : Draft} {o : Options} {m m' : Machine} {report : Report}
  {s s' : σ}

/-- the outputs are read where they were written, and by every other path to the same files -/
theorem writeOutputs_reads {cache old : Bytes} {script q : Text} {loaderPath : Option Text}
    (hm : m.files.Orderly m.directory) (hrender : Loader.render o.extension T.layouts = .ok script)
    (h : T.writeOutputs o cache m = (.ok loaderPath, m')) (hq : m.read q = .ok old) :
    m'.files.Orderly m'.directory ∧
    m'.read q = .ok (
      if o.createLoader && m'.sameFile o.loaderPath q then Utf8.encode script
      else if m'.sameFile o.cachePath q then cache else old) ∧
    m'.read o.cachePath = .ok (
      if o.createLoader && m'.sameFile o.loaderPath o.cachePath then Utf8.encode script
      else cache) ∧
    (o.createLoader = true → m'.read o.loaderPath = .ok (Utf8.encode script)) := by
  obtain ⟨m₁, m₂, hmake, hcache, hloader⟩ := writeOutputs_ok h
  have hm₁ : m₁ = (m.makeDirectories o.output).2 := by rw [hmake]
  have horderly₁ : m₁.files.Orderly m₁.directory := by
    rw [hm₁]
    exact hm.growth (makeDirectories_growth hm o.output)
  have hq₁ : m₁.read q = .ok old := by
    rw [hm₁]
    exact Machine.read_makeDirectories hm hq o.output
  have hq₂ := Machine.read_write horderly₁ hcache hq₁
  have hcache₂ := Machine.read_written horderly₁ hcache
  obtain ⟨horderly₂, -⟩ := Machine.find_write horderly₁ hcache
  rcases writeLoader_ok hloader with ⟨hcreate, -, script', hrender', hwrite⟩ | ⟨hcreate, -, rfl⟩
  · obtain rfl : script' = script := Except.ok.inj (hrender'.symm.trans hrender)
    obtain ⟨horderly, -⟩ := Machine.find_write horderly₂ hwrite
    simp only [hcreate, Bool.true_and]
    refine ⟨horderly, ?_, Machine.read_write horderly₂ hwrite hcache₂,
      fun _ => Machine.read_written horderly₂ hwrite⟩
    rw [Machine.read_write horderly₂ hwrite hq₂,
      Machine.sameFile_write horderly₂ hwrite hcache₂ hq₂]
  · simp only [hcreate, Bool.false_and, Bool.false_eq_true, if_false]
    exact ⟨horderly₂, hq₂, hcache₂, fun hloader => hloader.elim⟩

/-- **What a compile leaves of its source and its cache.** On a machine without symbolic links, let a
compile succeed. Its source then holds what it held, unless the cache goes to the same file, or the
loader does, which is written last; the cache holds what was compiled, in the size reported, unless
the loader goes to the same file. A loader does that exactly if it is named like the cache, and two
files that are not named alike are never the same. So three different names keep the source and the
cache whole. -/
theorem compileFile_collisions (hd : d.resolve = .ok o) (hm : m.files.Orderly m.directory)
    (hcompile : T.compileFile o m s = (.ok report, m', s')) :
    ∃ original text cache script, m.read o.filename = .ok original ∧
      m.readSource o.filename = .ok text ∧
      (T.compileSource o (Source.prepare o.asModule text) m s).1 = .ok cache ∧
      Loader.render o.extension T.layouts = .ok script ∧
      report.cachePath = o.cachePath ∧ report.cacheLength = cache.length ∧
      m'.read o.filename = .ok (
        if o.createLoader && m'.sameFile o.loaderPath o.filename then Utf8.encode script
        else if m'.sameFile o.cachePath o.filename then cache else original) ∧
      m'.read o.cachePath = .ok (
        if o.createLoader && m'.sameFile o.loaderPath o.cachePath then Utf8.encode script
        else cache) ∧
      (o.createLoader = true →
        (m'.sameFile o.loaderPath o.cachePath = true ↔ o.loaderName = o.compiledName)) ∧
      (Path.fileName? o.filename ≠ some o.compiledName →
        (o.createLoader = true → o.loaderName ≠ o.compiledName ∧
          Path.fileName? o.filename ≠ some o.loaderName) →
        m'.read o.filename = .ok original ∧ m'.read o.cachePath = .ok cache) := by
  obtain ⟨hloader, -⟩ := Draft.resolve_spec hd
  obtain ⟨text, cache, loaderPath, m₁, hsource, hcompiled, hwrite, rfl⟩ := compileFile_ok hcompile
  obtain ⟨original, horiginal, -⟩ := Machine.readSource_ok_iff.1 hsource
  obtain ⟨script, hrender⟩ := Draft.exists_render hd T.layouts
  obtain ⟨hfiles, hdirectory⟩ := files_of_compileSource hcompiled
  have hm₁ : m₁.files.Orderly m₁.directory := by rwa [hfiles, hdirectory]
  have horiginal₁ : m₁.read o.filename = .ok original := by
    rw [← horiginal, Machine.read, Machine.read, hfiles, hdirectory]
  obtain ⟨hm', hreadSource, hreadCache, hreadLoader⟩ :=
    writeOutputs_reads hm₁ hrender hwrite horiginal₁
  have hname := Draft.isPlain_compiledName hd
  have hloaderCache : o.createLoader = true →
      (m'.sameFile o.loaderPath o.cachePath = true ↔ o.loaderName = o.compiledName) := by
    intro hcreate
    constructor
    · intro hsame
      have hloaderName :=
        Machine.fileName?_of_sameFile_join hm' hloader hsame (hreadLoader hcreate) hreadCache
      have hcacheName := Machine.fileName?_join_of_read hm' hname hreadCache
      exact Option.some.inj (hloaderName.symm.trans hcacheName)
    · intro heq
      have hpath : o.loaderPath = o.cachePath := by rw [Options.loaderPath, Options.cachePath, heq]
      rw [hpath]
      exact Machine.sameFile_self hreadCache
  refine ⟨original, text, cache, script, horiginal, hsource, by rw [hcompiled], hrender, rfl, rfl,
    hreadSource, hreadCache, hloaderCache, ?_⟩
  intro hsourceName hnames
  have hcacheSafe : m'.sameFile o.cachePath o.filename = false := by
    rw [Bool.eq_false_iff]
    intro hsame
    exact hsourceName
      (Machine.fileName?_of_sameFile_join hm' hname hsame hreadCache hreadSource)
  have hsourceSafe : (o.createLoader && m'.sameFile o.loaderPath o.filename) = false := by
    rw [Bool.and_eq_false_imp]
    intro hcreate
    rw [Bool.eq_false_iff]
    intro hsame
    exact (hnames hcreate).2
      (Machine.fileName?_of_sameFile_join hm' hloader hsame (hreadLoader hcreate) hreadSource)
  have hloaderSafe : (o.createLoader && m'.sameFile o.loaderPath o.cachePath) = false := by
    rw [Bool.and_eq_false_imp]
    intro hcreate
    rw [Bool.eq_false_iff]
    intro hsame
    exact (hnames hcreate).1 ((hloaderCache hcreate).1 hsame)
  rw [hreadSource, hreadCache, hsourceSafe, hloaderSafe, hcacheSafe]
  exact ⟨rfl, rfl⟩

end Toolchain

namespace SimulatedEngine

/-! ## Names that collide -/

/-- a source, and a loader beside its cache -/
def collidingDraft (filename loaderName : Text) : Draft :=
  { Draft.empty with filename := filename, createLoader := true, loaderName := some loaderName }

def collidingOptions (filename loaderName : Text) : Options :=
  ⟨filename, ".", false, false, none, true, loaderName, Extension.standard⟩

def collidingMachine (filename : Text) : Machine :=
  ⟨⟨[([filename], .file (Utf8.encode "[1]") false none)]⟩, [], [], []⟩

theorem orderly_colliding (filename : Text) :
    (collidingMachine filename).files.Orderly (collidingMachine filename).directory where
  linkFree := linkFree_of_nodes (by simp [collidingMachine])
  stands := stands_root _

def collidingResult (filename loaderName : Text) :
    Except CompileError Report × Machine × SimulatedEngine :=
  (toolchain .builtIn .complete).compileFile (collidingOptions filename loaderName)
    (collidingMachine filename) standard

/-- what all these compiles report -/
def collidingReport (filename loaderPath : Text) : Report :=
  ⟨filename, "./app.bin", some loaderPath, 3, (standard.cacheOf "[1]").length⟩

/-- beside `loader.js`, `app.js` and `app.bin` are whole -/
theorem compileFile_collisions_apart :
    (collidingDraft "app.js" "loader.js").resolve = .ok (collidingOptions "app.js" "loader.js") ∧
    (collidingResult "app.js" "loader.js").1 = .ok (collidingReport "app.js" "./loader.js") ∧
    (collidingResult "app.js" "loader.js").2.1.read "app.js" = .ok (Utf8.encode "[1]") ∧
    (collidingResult "app.js" "loader.js").2.1.read "./app.bin" = .ok (standard.cacheOf "[1]") := by
  have hreport : (collidingResult "app.js" "loader.js").1 =
      .ok (collidingReport "app.js" "./loader.js") := rfl
  have hcompile : (toolchain .builtIn .complete).compileFile (collidingOptions "app.js" "loader.js")
      (collidingMachine "app.js") standard = (.ok (collidingReport "app.js" "./loader.js"),
        (collidingResult "app.js" "loader.js").2.1, (collidingResult "app.js" "loader.js").2.2) :=
    Prod.ext hreport rfl
  obtain ⟨original, text, cache, script, horiginal, htext, hcache, -, -, -, -, -, -, hwhole⟩ :=
    Toolchain.compileFile_collisions (d := collidingDraft "app.js" "loader.js") rfl
      (orderly_colliding "app.js") hcompile
  have hsource : (collidingMachine "app.js").read "app.js" = .ok (Utf8.encode "[1]") := rfl
  have hread : (collidingMachine "app.js").readSource "app.js" = .ok "[1]" := rfl
  obtain rfl : text = "[1]".toList := Except.ok.inj (htext.symm.trans hread)
  obtain rfl : original = Utf8.encode "[1]" := Except.ok.inj (horiginal.symm.trans hsource)
  have hcompiled : ((toolchain .builtIn .complete).compileSource
      (collidingOptions "app.js" "loader.js") "[1]" (collidingMachine "app.js") standard).1 =
        .ok (standard.cacheOf "[1]") := rfl
  obtain rfl : cache = standard.cacheOf "[1]" := Except.ok.inj (hcache.symm.trans hcompiled)
  obtain ⟨hkept, hmade⟩ := hwhole (by decide) (fun _ => by decide)
  exact ⟨rfl, hreport, hkept, hmade⟩

/-- the source holds what it held -/
def sourceKept (filename loaderName : Text) : Bool :=
  (collidingResult filename loaderName).2.1.read filename == .ok (Utf8.encode "[1]")

/-- the cache holds what was compiled -/
def cacheKept (filename loaderName : Text) : Bool :=
  (collidingResult filename loaderName).2.1.read "./app.bin" == .ok (standard.cacheOf "[1]")

/-- `app.bin` is replaced by its own cache, `app.js` by a loader of its name, and the cache `app.bin`
by a loader of its name -/
theorem kept_colliding :
    sourceKept "app.bin" "loader.js" = false ∧ sourceKept "app.js" "app.js" = false ∧
      cacheKept "app.js" "app.bin" = false := by
  decide +kernel

/-- **A compile can overwrite its source and its cache.** Options that resolve do not keep the cache
off the source, nor the loader off the cache. -/
theorem not_compileFile_intact :
    (¬∀ (d : Draft) (o : Options) (m m' : Machine) (t : Text) (report : Report)
        (E E' : SimulatedEngine),
      d.resolve = .ok o → m.files.Orderly m.directory → o.electron = false →
      m.read o.filename = .ok (Utf8.encode t) →
      (toolchain .builtIn .complete).compileFile o m E = (.ok report, m', E') →
      m'.read o.filename = .ok (Utf8.encode t)) ∧
    ¬∀ (d : Draft) (o : Options) (m m' : Machine) (t : Text) (report : Report)
        (E E' : SimulatedEngine),
      d.resolve = .ok o → m.files.Orderly m.directory → o.electron = false →
      m.read o.filename = .ok (Utf8.encode t) →
      (toolchain .builtIn .complete).compileFile o m E = (.ok report, m', E') →
      m'.read report.cachePath = .ok (E.cacheOf (Source.prepare o.asModule t)) := by
  have hcompile : ∀ filename loaderName loaderPath,
      (collidingResult filename loaderName).1 = .ok (collidingReport filename loaderPath) →
      (toolchain .builtIn .complete).compileFile (collidingOptions filename loaderName)
        (collidingMachine filename) standard = (.ok (collidingReport filename loaderPath),
          (collidingResult filename loaderName).2.1, (collidingResult filename loaderName).2.2) :=
    fun _ _ _ hreport => Prod.ext hreport rfl
  obtain ⟨hsource, -, hcache⟩ := kept_colliding
  constructor
  · intro h
    have hkept : (collidingResult "app.bin" "loader.js").2.1.read "app.bin" =
        .ok (Utf8.encode "[1]") :=
      h (collidingDraft "app.bin" "loader.js") _ _ _ "[1]" _ standard _ rfl
        (orderly_colliding "app.bin") rfl rfl (hcompile "app.bin" "loader.js" "./loader.js" rfl)
    exact Bool.noConfusion (hsource.symm.trans (beq_iff_eq.2 hkept))
  · intro h
    have hkept : (collidingResult "app.js" "app.bin").2.1.read "./app.bin" =
        .ok (standard.cacheOf "[1]") :=
      h (collidingDraft "app.js" "app.bin") _ _ _ "[1]" _ standard _ rfl
        (orderly_colliding "app.js") rfl rfl (hcompile "app.js" "app.bin" "./app.bin" rfl)
    exact Bool.noConfusion (hcache.symm.trans (beq_iff_eq.2 hkept))

end SimulatedEngine

end CodeCache
