/-
What a compile leaves behind: options that fit together, and a file where the report says.

- `Draft.resolve_spec`: the parts that a resolved name is made of.
- `Machine.HasFile`: a path leads to a file with a content, without links on the way. A write makes
  it so (`hasFile_of_write`), and a write under another name keeps it (`HasFile.write`).
- `Toolchain.compileFile_spec`: a compile that succeeds has given the prepared source to the engine
  once, and leaves its cache at the cache path, also when a loader was written next to it.
-/
import CodeCache.Compile.Pipeline
import CodeCache.Proofs.Compile.Resolution
import CodeCache.Proofs.Loading.CrossBuild
import CodeCache.Proofs.System.Respelling
import CodeCache.Proofs.System.Writes
import CodeCache.Proofs.Text.Defects

namespace CodeCache

/-! ## Options -/

/-- a text that can be a file name, as far as slashes matter -/
def IsPlain (name : Text) : Prop := name ≠ [] ∧ '/' ∉ name

theorem IsFilePart.isPlain {t : Text} (h : IsFilePart t) : IsPlain t :=
  ⟨h.1, fun hslash => (h.2 '/' hslash).1 rfl⟩

theorem Extension.normalize_spec {t extension : Text} (h : normalize t = .ok extension) :
    extension = '.' :: bare t ∧ IsPlain (bare t) ∧ normalize extension = .ok extension := by
  obtain ⟨hpart, rfl⟩ := normalize_eq_ok_iff.1 h
  exact ⟨rfl, hpart.isPlain, normalize_eq_ok_iff.2 ⟨hpart, rfl⟩⟩

/-- the stem of a path that is a text is that of the text -/
theorem sourceStem_encode (source : Text) :
    sourceStem (Utf8.encode source) = Utf8.encode ((Path.stem? source).getD []) := by
  have hstem : Path.stem? source.lettered = (Path.stem? source).map Text.lettered := by
    rw [Text.lettered_eq, Text.respells_lettered.stem?_respell]
    exact congrArg (Option.map · (Path.stem? source)) (funext fun t => (Text.lettered_eq t).symm)
  rw [sourceStem, show (Utf8.encode source).letters = source.lettered from rfl, hstem]
  cases Path.stem? source with
  | none => rfl
  | some stem =>
    rw [Option.map_some, Option.getD_some, Option.getD_some, Text.lettered, Bytes.ofLetters_letters]

/-- and the name of its cache begins with it unchanged -/
theorem cacheName_encode (source extension : Text) :
    cacheName (Utf8.encode source) extension = (Path.stem? source).getD [] ++ extension := by
  rw [cacheName, sourceStem_encode, Utf8.decodeLossy_encode]

theorem Options.compiledName_eq (o : Options) :
    o.compiledName = (Path.stem? o.filename).getD [] ++ o.extension :=
  cacheName_encode o.filename o.extension

/-- a resolved name is a stem, a point and the rest of the extension, none of them empty -/
theorem Draft.resolve_spec {d : Draft} {o : Options} (h : d.resolve = .ok o) :
    IsPlain o.loaderName ∧ Extension.normalize o.extension = .ok o.extension ∧
      ∃ stem bare, IsPlain stem ∧ IsPlain bare ∧ o.extension = '.' :: bare ∧
        o.compiledName = stem ++ '.' :: bare := by
  obtain ⟨⟨hfile, hextension, hloader⟩, rfl⟩ := resolve_eq_ok_iff.1 h
  obtain ⟨stem, hstem⟩ := Path.exists_stem? hfile
  refine ⟨hloader.isPlain, Extension.normalize_eq_ok_iff.2 ⟨hextension, rfl⟩, stem, _,
    Path.stem?_spec hstem, hextension.isPlain, rfl, ?_⟩
  rw [Options.compiledName_eq, filled, hstem]
  rfl

theorem IsPlain.extended {stem bare : Text} (hstem : IsPlain stem) (hbare : IsPlain bare) :
    IsPlain (stem ++ '.' :: bare) := by
  constructor
  · simp
  · intro hs
    rcases List.mem_append.1 hs with hs | hs
    · exact hstem.2 hs
    · rcases List.mem_cons.1 hs with hs | hs
      · exact absurd hs (by decide)
      · exact hbare.2 hs

section Resolved

variable {d : Draft} {o : Options}

theorem Draft.isPlain_compiledName (h : d.resolve = .ok o) : IsPlain o.compiledName := by
  obtain ⟨-, -, stem, bare, hstem, hbare, -, hname⟩ := resolve_spec h
  exact hname ▸ hstem.extended hbare

/-- options that resolve have a loader -/
theorem Draft.exists_render (h : d.resolve = .ok o) (layouts : LayoutTable) :
    ∃ script, Loader.render o.extension layouts = .ok script := by
  obtain ⟨-, hnormal, -⟩ := resolve_spec h
  exact ⟨_, by rw [Loader.render, hnormal]⟩

end Resolved

/-! ## Files -/

namespace Machine

open FileSystem

variable {m m' : Machine} {p q name : Text} {r : Route} {content other : Bytes}

/-- a path leads to a file in a file system without links -/
structure HasFile (m : Machine) (p : Text) (r : Route) (content : Bytes) : Prop where
  orderly : m.files.Orderly m.directory
  place : ∃ executable, m.files.place m.directory .through p =
    .ok ⟨r, some (.file content executable none)⟩

theorem directory_write (m : Machine) (p : Text) (content : Bytes) :
    (m.write p content).2.directory = m.directory := by
  unfold write
  cases m.files.write m.directory p content with
  | error e => rfl
  | ok files => rfl

theorem write_eq_ok_iff : m.write p content = (.ok (), m') ↔
    ∃ files, m.files.write m.directory p content = .ok files ∧ m' = m.withFiles files := by
  unfold write
  cases m.files.write m.directory p content with
  | error e => simp
  | ok files => simp [eq_comm]

theorem write_of_error {e : OsError} (h : m.write p content = (.error e, m')) : m' = m := by
  unfold write at h
  cases hwrite : m.files.write m.directory p content with
  | ok files => rw [hwrite] at h; cases h
  | error e => rw [hwrite] at h; cases h; rfl

/-- a write that succeeds replaces or creates one node -/
theorem write_spec (hm : m.files.Orderly m.directory) (h : m.write p content = (.ok (), m')) :
    ∃ r node executable, m.files.place m.directory .through p = .ok ⟨r, node⟩ ∧
      node ≠ some .directory ∧ r ≠ [] ∧
      Growth m.files (m.files.put r (.file content executable none)) ∧
      m' = m.withFiles (m.files.put r (.file content executable none)) := by
  obtain ⟨files, hwrite, rfl⟩ := write_eq_ok_iff.1 h
  obtain ⟨r, node, executable, hplace, hnode, rfl⟩ := FileSystem.write_spec hwrite
  obtain ⟨-, -, hthere⟩ := hm.place_spec hplace
  have hne : r ≠ [] := by
    rintro rfl
    exact hnode (hthere.symm.trans rfl)
  exact ⟨r, node, executable, hplace, hnode, hne, growth_put (by rwa [hthere]) (by simp), rfl⟩

theorem hasFile_of_write (hm : m.files.Orderly m.directory) (hplain : IsPlain name) {base : Text}
    (h : m.write (Path.join base name) content = (.ok (), m')) :
    ∃ above, m'.HasFile (Path.join base name) (above ++ [name]) content := by
  obtain ⟨r, node, executable, hplace, hnode, hne, hgrowth, rfl⟩ := write_spec hm h
  obtain ⟨before, hsteps⟩ := exists_steps_join hplain.1 hplain.2 base
  have hlast := hm.getLast?_place hplace hnode hsteps
  refine ⟨r.dropLast, hm.growth hgrowth, executable, ?_⟩
  have hagain := hm.place_growth hgrowth hplace
  rw [node?_put hne, if_pos rfl] at hagain
  rw [← hlast]
  exact hagain

/-- writing another file, by its name, leaves the one that is there -/
theorem HasFile.write {above : Route} {name' base : Text}
    (h : m.HasFile p (above ++ [name]) content) (hplain : IsPlain name') (hdiff : name' ≠ name)
    (hwrite : m.write (Path.join base name') other = (.ok (), m')) :
    m'.HasFile p (above ++ [name]) content := by
  obtain ⟨r, node, executable, hplace, hnode, hne, hgrowth, rfl⟩ := write_spec h.orderly hwrite
  obtain ⟨before, hsteps⟩ := exists_steps_join hplain.1 hplain.2 base
  have hlast := h.orderly.getLast?_place hplace hnode hsteps
  obtain ⟨bit, hfile⟩ := h.place
  obtain ⟨-, -, hthere⟩ := h.orderly.place_spec hfile
  have hother : above ++ [name] ≠ r := by
    intro heq
    rw [hlast] at heq
    exact hdiff (List.singleton_inj.1 (List.append_inj' heq rfl).2.symm)
  refine ⟨h.orderly.growth hgrowth, bit, ?_⟩
  have hagain := h.orderly.place_growth hgrowth hfile
  rw [node?_put hne, if_neg hother, hthere] at hagain
  exact hagain

theorem HasFile.read (h : m.HasFile p r content) (hsize : Utf8.size r.text ≤ longestPath) :
    m.read r.text = .ok content := by
  obtain ⟨executable, hplace⟩ := h.place
  exact h.orderly.read_text hplace hsize m.directory

end Machine

/-! ## Compiling -/

namespace Toolchain

open FileSystem

variable {σ : Type} {T : Toolchain σ} {o : Options} {m m' : Machine} {cache : Bytes}
  {loaderPath : Option Text}

/-- a loader that was to be written was written, and nothing otherwise -/
theorem writeLoader_ok (h : T.writeLoader o m = (.ok loaderPath, m')) :
    (o.createLoader = true ∧ loaderPath = some o.loaderPath ∧
      ∃ script, Loader.render o.extension T.layouts = .ok script ∧
        m.write o.loaderPath (Utf8.encode script) = (.ok (), m')) ∨
    (o.createLoader = false ∧ loaderPath = none ∧ m' = m) := by
  rw [writeLoader_eq] at h
  by_cases hcreate : o.createLoader = true
  · rw [if_pos hcreate, Loader.write_eq] at h
    cases hrender : Loader.render o.extension T.layouts with
    | error e => rw [hrender] at h; cases h
    | ok script =>
      rcases hwrite : m.write (Path.join o.output o.loaderName) (Utf8.encode script) with
        ⟨written, m₁⟩
      simp only [hrender, hwrite] at h
      cases written with
      | error e => cases h
      | ok =>
        cases h
        exact .inl ⟨hcreate, rfl, script, rfl, hwrite⟩
  · rw [if_neg hcreate] at h
    cases h
    exact .inr ⟨by simpa using hcreate, rfl, rfl⟩

/-- outputs are written one after another: the directory, the cache, the loader -/
theorem writeOutputs_ok (h : T.writeOutputs o cache m = (.ok loaderPath, m')) :
    ∃ m₁ m₂, m.makeDirectories o.output = (.ok (), m₁) ∧
      m₁.write o.cachePath cache = (.ok (), m₂) ∧
      T.writeLoader o m₂ = (.ok loaderPath, m') := by
  rw [writeOutputs_eq] at h
  rcases hmake : m.makeDirectories o.output with ⟨made, m₁⟩
  rw [hmake] at h
  cases made with
  | error e => cases h
  | ok =>
    rcases hwrite : m₁.write o.cachePath cache with ⟨written, m₂⟩
    simp only [hwrite] at h
    cases written with
    | error e => cases h
    | ok => exact ⟨m₁, m₂, rfl, hwrite, h⟩

/-- a compile that succeeds has read its source, compiled it and written the outputs -/
theorem compileFile_ok {s s' : σ} {report : Report}
    (h : T.compileFile o m s = (.ok report, m', s')) :
    ∃ text cache loaderPath m₁, m.readSource o.filename = .ok text ∧
      T.compileSource o (Source.prepare o.asModule text) m s = (.ok cache, m₁, s') ∧
      T.writeOutputs o cache m₁ = (.ok loaderPath, m') ∧
      report = ⟨o.filename, o.cachePath, loaderPath,
        Text.units (Source.prepare o.asModule text), cache.length⟩ := by
  rw [compileFile_eq] at h
  cases hread : m.readSource o.filename with
  | error e => rw [hread] at h; cases h
  | ok text =>
    rcases hcompile : T.compileSource o (Source.prepare o.asModule text) m s with ⟨compiled, m₁, s₁⟩
    simp only [hread, hcompile] at h
    cases compiled with
    | error e => cases h
    | ok cache =>
      rcases hwrite : T.writeOutputs o cache m₁ with ⟨written, m₂⟩
      simp only [hwrite] at h
      cases written with
      | error e => cases h
      | ok loaderPath =>
        cases h
        exact ⟨text, cache, loaderPath, m₁, rfl, hcompile, hwrite, rfl⟩

/-- a loader that is written keeps what is there under another name -/
theorem writeLoader_spec {p name : Text} {above : Route} {content : Bytes}
    (h : m.HasFile p (above ++ [name]) content) (hloader : IsPlain o.loaderName)
    (hdiff : o.createLoader = true → o.loaderName ≠ name)
    (hwrite : T.writeLoader o m = (.ok loaderPath, m')) :
    m'.HasFile p (above ++ [name]) content ∧ m'.directory = m.directory := by
  rcases writeLoader_ok hwrite with ⟨hcreate, -, script, -, hnext⟩ | ⟨-, -, rfl⟩
  · refine ⟨h.write hloader (hdiff hcreate) hnext, ?_⟩
    rw [← m.directory_write o.loaderPath (Utf8.encode script), hnext]
  · exact ⟨h, rfl⟩

/-- the cache is at its path, whether or not a loader was written after it -/
theorem writeOutputs_spec (hm : m.files.Orderly m.directory) (hname : IsPlain o.compiledName)
    (hloader : IsPlain o.loaderName) (hdiff : o.createLoader = true → o.loaderPath ≠ o.cachePath)
    (h : T.writeOutputs o cache m = (.ok loaderPath, m')) :
    ∃ above, m'.HasFile o.cachePath (above ++ [o.compiledName]) cache ∧
      m'.directory = m.directory := by
  obtain ⟨m₁, m₂, hmake, hwrite, hnext⟩ := writeOutputs_ok h
  have hm₁ : m₁ = (m.makeDirectories o.output).2 := by rw [hmake]
  have horderly : m₁.files.Orderly m₁.directory := by
    rw [hm₁]
    exact hm.growth (makeDirectories_growth hm o.output)
  have hdirectory₁ : m₁.directory = m.directory := by rw [hm₁]; rfl
  have hdirectory₂ : m₂.directory = m₁.directory := by
    rw [← m₁.directory_write o.cachePath cache, hwrite]
  obtain ⟨above, hfile⟩ := Machine.hasFile_of_write horderly hname hwrite
  have hnames : o.createLoader = true → o.loaderName ≠ o.compiledName := fun hcreate heq =>
    hdiff hcreate (by rw [Options.loaderPath, Options.cachePath, heq])
  obtain ⟨hkept, hdirectory⟩ := writeLoader_spec hfile hloader hnames hnext
  exact ⟨above, hkept, hdirectory.trans (hdirectory₂.trans hdirectory₁)⟩

end Toolchain

namespace SimulatedEngine

/-- a toolchain that compiles on simulated engines -/
def toolchain (layouts : LayoutTable) (flags : EngineFlags) : Toolchain SimulatedEngine :=
  ⟨some engine, layouts, flags⟩

theorem compileText_engine (source : Text) (E : SimulatedEngine) :
    engine.compileText source E =
      (if balanced 0 source then .ok (E.cacheOf source)
        else .error (.engine (.script "SyntaxError: Unexpected end of input")),
        E.remembering source) := by
  have hcompile : engine.compile source E = compile source E := rfl
  simp only [ScriptEngine.compileText, hcompile, compile]
  split_ifs <;> rfl

/-- a compile that succeeds on a simulated engine had a source whose brackets are balanced -/
theorem compileFile_inv {layouts : LayoutTable} {flags : EngineFlags} {o : Options} {m m' : Machine}
    {report : Report} {E E' : SimulatedEngine} (helectron : o.electron = false)
    (h : (toolchain layouts flags).compileFile o m E = (.ok report, m', E')) :
    ∃ text loaderPath, m.readSource o.filename = .ok text ∧
      balanced 0 (Source.prepare o.asModule text) = true ∧
      (toolchain layouts flags).writeOutputs o (E.cacheOf (Source.prepare o.asModule text)) m =
        (.ok loaderPath, m') ∧
      E' = E.remembering (Source.prepare o.asModule text) ∧
      report = ⟨o.filename, o.cachePath, loaderPath, Text.units (Source.prepare o.asModule text),
        (E.cacheOf (Source.prepare o.asModule text)).length⟩ := by
  obtain ⟨text, cache, loaderPath, m₁, hread, hcompile, hwrite, rfl⟩ := Toolchain.compileFile_ok h
  simp only [Toolchain.compileSource, toolchain, helectron, compileText_engine, Bool.false_eq_true,
    if_false, Prod.mk.injEq] at hcompile
  obtain ⟨hcache, rfl, rfl⟩ := hcompile
  split_ifs at hcache with hbalanced
  cases hcache
  exact ⟨text, loaderPath, hread, hbalanced, hwrite, rfl, rfl⟩

/-- a compile that succeeds gave the engine the prepared source, and its cache is at the cache path -/
theorem compileFile_spec {d : Draft} {layouts : LayoutTable} {flags : EngineFlags} {t : Text}
    {o : Options} {m m' : Machine} {report : Report} {E E' : SimulatedEngine}
    (hm : m.files.Orderly m.directory)
    (hd : d.resolve = .ok o) (helectron : o.electron = false)
    (hdiff : o.createLoader = true → o.loaderPath ≠ o.cachePath)
    (hsource : m.read o.filename = .ok (Utf8.encode t))
    (h : (toolchain layouts flags).compileFile o m E = (.ok report, m', E')) :
    E' = E.remembering (Source.prepare o.asModule t) ∧ report.cachePath = o.cachePath ∧
      m'.directory = m.directory ∧
      ∃ above, m'.HasFile o.cachePath (above ++ [o.compiledName])
        (E.cacheOf (Source.prepare o.asModule t)) := by
  have hread : m.readSource o.filename = .ok t := by
    simp only [Machine.readSource, hsource, Utf8.decode_encode]
  obtain ⟨text, loaderPath, htext, -, hwrite, rfl, rfl⟩ := compileFile_inv helectron h
  obtain rfl : text = t := Except.ok.inj (htext.symm.trans hread)
  obtain ⟨hloader, -, stem, bare, hstem, hbare, -, hname⟩ := Draft.resolve_spec hd
  obtain ⟨above, hfile, hdirectory⟩ := Toolchain.writeOutputs_spec hm
    (hname ▸ hstem.extended hbare) hloader hdiff hwrite
  exact ⟨rfl, rfl, hdirectory, above, hfile⟩

end SimulatedEngine

end CodeCache
