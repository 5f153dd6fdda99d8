/-
Where a loader goes: directly into its directory, under its own name.

A text without a slash is a normal name unless it is empty, `.` or `..`, and a path that ends in one of
these leads to a directory, so no file is written there (`isNormal_of_write`). A draft is checked for
slashes and backslashes, which leaves `.` and `..`; they are accepted, but their loader is never
written. Writing a loader by itself checks nothing, so a name with a slash is a path of its own.

Main result, `Loader.path_contained`; what is not so, `Loader.not_path_contained`.
-/
import CodeCache.CommandLine.Run
import CodeCache.Proofs.Compile.Outputs
import CodeCache.Proofs.System.Containing

namespace CodeCache

/-! ## Names without a slash -/

namespace FileSystem

variable {fs fs' : FileSystem} {here r : Route} {node : Option Node} {directory name : Text}
  {content : Bytes}

/-- a name without a slash is normal, or its path is none or ends in a step that is no name -/
theorem isNormal_or_endsIdle (hslash : '/' ∉ name) (base : Text) :
    Path.IsNormal name ∨ Path.join base name = [] ∨ EndsIdle (steps (Path.join base name)) := by
  by_cases hne : name = []
  · subst hne
    by_cases hbase : base = []
    · subst hbase
      exact .inr (.inl rfl)
    · have hlast : (Path.join base []).getLast? = some '/' := by
        rw [Path.join_relative rfl]
        split_ifs with hend
        · rw [List.append_nil]
          exact hend.resolve_left hbase
        · exact List.getLast?_concat
      exact .inr (.inr (endsIdle_steps hlast))
  · obtain ⟨before, hsteps⟩ := exists_steps_join hne hslash base
    rw [hsteps, endsIdle_append (List.cons_ne_nil _ _), endsIdle_singleton]
    by_cases hidle : name = ['.'] ∨ name = ['.', '.']
    · exact .inr (.inr hidle)
    · obtain ⟨hdot, hdots⟩ := not_or.1 hidle
      exact .inl ⟨hne, hslash, hdot, hdots⟩

/-- **Only a normal name is written to**, among the names without a slash -/
theorem isNormal_of_write (h : fs.write here (Path.join directory name) content = .ok fs')
    (hslash : '/' ∉ name) : Path.IsNormal name := by
  obtain ⟨r, node, -, hplace, hnode, -⟩ := write_spec h
  obtain ⟨hp, hfollows⟩ := follows_of_place hplace
  rcases isNormal_or_endsIdle hslash directory with hname | hnil | hidle
  · exact hname
  · exact absurd hnil hp.nonempty
  · exact absurd (hfollows.directory_of_endsIdle hidle) hnode

/-- in the working directory a normal name leads to a place under this name -/
theorem here_of_place_name (hname : Path.IsNormal name)
    (h : fs.place here .upTo name = .ok ⟨r, node⟩) : r = here ++ [name] := by
  have hp := sayable_of_place h
  rw [place_eq hp, steps_name hname.nonempty hname.no_slash, origin, if_neg (by simp [hname.relative]),
    ← List.nil_append [name]] at h
  obtain ⟨above, habove, hstep⟩ := walkThrough_last h
  obtain ⟨-, -, rfl⟩ := (walk_singleton_spec hstep).resolve_right fun hidle =>
    hidle.1.elim hname.not_here hname.not_above
  cases habove
  rfl

end FileSystem

/-! ## Directly in a directory -/

/-- a path lies in a directory under this name: by its components, and wherever a file system leads
it. A link of that name is not followed. -/
structure LiesIn (directory name path : Text) : Prop where
  normal : Path.IsNormal name
  components : Path.components path = Path.components directory ++ [.name name]
  place : ∀ (files : FileSystem) here r node, files.place here .upTo path = .ok ⟨r, node⟩ →
    ∃ above, r = above ++ [name] ∧
      if directory = [] then above = here else files.find here directory = .ok (above, .directory)

variable {directory name : Text}

theorem liesIn_join_iff : LiesIn directory name (Path.join directory name) ↔ Path.IsNormal name := by
  refine ⟨LiesIn.normal, fun hname => ⟨hname, Path.components_join_name hname directory, ?_⟩⟩
  intro files here r node hplace
  split_ifs with hdirectory
  · subst hdirectory
    rw [Path.join_nil_left] at hplace
    exact ⟨here, FileSystem.here_of_place_name hname hplace, rfl⟩
  · exact FileSystem.find_of_place_join hname hdirectory hplace

/-- a name without slashes and backslashes is normal but for two -/
theorem IsFilePart.isNormal_iff (h : IsFilePart name) :
    Path.IsNormal name ↔ name ≠ ['.'] ∧ name ≠ ['.', '.'] :=
  ⟨fun hname => ⟨hname.not_here, hname.not_above⟩,
    fun hname => ⟨h.1, fun hslash => (h.2 '/' hslash).1 rfl, hname.1, hname.2⟩⟩

/-- what is written under a name without a slash lies in the directory -/
theorem liesIn_of_written {content : Bytes} {m m' : Machine}
    (h : m.write (Path.join directory name) content = (.ok (), m')) (hslash : '/' ∉ name) :
    LiesIn directory name (Path.join directory name) := by
  rw [liesIn_join_iff]
  obtain ⟨files, hwrite, -⟩ := Machine.write_eq_ok_iff.1 h
  exact FileSystem.isNormal_of_write hwrite hslash

namespace Loader

variable {extension path : Text} {table : LayoutTable} {m m' : Machine}

/-- a loader that is written is written to the path of its name -/
theorem write_ok (h : write directory name extension table m = (.ok path, m')) :
    path = Path.join directory name ∧
      ∃ script, m.write path (Utf8.encode script) = (.ok (), m') := by
  rw [write_eq] at h
  cases hrender : render extension table with
  | error e => rw [hrender] at h; cases h
  | ok script =>
    rcases hwrite : m.write (Path.join directory name) (Utf8.encode script) with ⟨_ | _, m₁⟩
    · simp only [hrender, hwrite] at h
      cases h
    · simp only [hrender, hwrite] at h
      cases h
      exact ⟨rfl, script, hwrite⟩

/-- a loader that is written lies in its directory unless its name has a slash -/
theorem liesIn_of_write (h : write directory name extension table m = (.ok path, m')) :
    path = Path.join directory name ∧ (LiesIn directory name path ↔ '/' ∉ name) := by
  obtain ⟨rfl, script, hwrite⟩ := write_ok h
  exact ⟨rfl, fun hlies => hlies.normal.no_slash, liesIn_of_written hwrite⟩

end Loader

theorem Command.runLoader_ok {c : Config} {k : LoaderCommand} {m m' : Machine} {printed : Text}
    (h : Command.runLoader c k m = (.ok printed, m')) :
    ∃ path m₁, printed = Text.line path ∧
      Loader.write k.directory ((k.loaderName.or c.loaderName).getD Options.standardLoaderName)
        ((k.extension.or c.extension).getD Extension.standard) c.layoutTable m₁ = (.ok path, m') := by
  unfold Command.runLoader at h
  rcases hmake : m.makeDirectories k.directory with ⟨_ | _, m₁⟩
  · simp only [hmake] at h
    cases h
  simp only [hmake] at h
  split at h
  · cases h
  · next hwrite =>
    cases h
    exact ⟨_, m₁, rfl, hwrite⟩

/-- whether a name for the loader is taken does not depend on anything else -/
theorem Draft.resolve_loaderName (d : Draft) {name : Text} (hname : d.loaderName = some name) :
    (∃ o, d.resolve = .ok o) ↔
      (∃ o, Draft.resolve { d with loaderName := none } = .ok o) ∧ IsFilePart name := by
  simp only [resolve_eq_ok_iff, exists_and_left, exists_eq, and_true]
  have hstandard : IsFilePart Options.standardLoaderName := by decide
  constructor
  · rintro ⟨hfile, hextension, hloader⟩
    rw [hname] at hloader
    exact ⟨⟨hfile, hextension, hstandard⟩, hloader⟩
  · rintro ⟨⟨hfile, hextension, -⟩, hloader⟩
    exact ⟨hfile, hextension, by rwa [hname]⟩

namespace Loader

/-- **Loaders stay in their directory.** A draft takes a name exactly if it is no empty text and has
no slash and no backslash; such a name lies in the output directory unless it is `.` or `..`, and a
compile that wrote a loader wrote it there, under this name. Written by itself or by its command, a
loader is put at the path of its name in the directory, and lies there unless the name has a slash. -/
theorem path_contained (name : Text) :
    (∀ d : Draft, d.loaderName = some name →
      ((∃ o, d.resolve = .ok o) ↔
        (∃ o, Draft.resolve { d with loaderName := none } = .ok o) ∧ IsFilePart name)) ∧
    (∀ (d : Draft) o, d.resolve = .ok o → d.loaderName.getD Options.standardLoaderName = name →
      o.loaderName = name ∧
      (LiesIn o.output name o.loaderPath ↔ name ≠ ['.'] ∧ name ≠ ['.', '.']) ∧
      ∀ {σ : Type} (T : Toolchain σ) m s report m' s' path,
        T.compileFile o m s = (.ok report, m', s') → report.loaderPath = some path →
          path = o.loaderPath ∧ LiesIn o.output name path) ∧
    (∀ directory extension table m m' path,
      write directory name extension table m = (.ok path, m') →
        path = Path.join directory name ∧ (LiesIn directory name path ↔ '/' ∉ name)) ∧
    ∀ (c : Config) (k : LoaderCommand) m m' printed,
      (k.loaderName.or c.loaderName).getD Options.standardLoaderName = name →
      Command.runLoader c k m = (.ok printed, m') →
        ∃ path, printed = Text.line path ∧ path = Path.join k.directory name ∧
          (LiesIn k.directory name path ↔ '/' ∉ name) := by
  refine ⟨fun d hname => d.resolve_loaderName hname, ?_, ?_, ?_⟩
  · intro d o hd hname
    obtain ⟨husable, rfl⟩ := Draft.resolve_eq_ok_iff.1 hd
    obtain rfl : d.filled.loaderName = name := hname
    have hpart : IsFilePart d.filled.loaderName := husable.loaderName
    refine ⟨rfl, liesIn_join_iff.trans hpart.isNormal_iff, ?_⟩
    intro σ T m s report m' s' path hcompile hpath
    obtain ⟨text, cache, loaderPath, m₁, -, -, houtputs, rfl⟩ := Toolchain.compileFile_ok hcompile
    obtain ⟨m₂, m₃, -, -, hloader⟩ := Toolchain.writeOutputs_ok houtputs
    obtain rfl : loaderPath = some path := hpath
    rcases Toolchain.writeLoader_ok hloader with ⟨-, hwritten, script, -, hwrite⟩ | ⟨-, hnone, -⟩
    · obtain rfl := Option.some.inj hwritten
      exact ⟨rfl, liesIn_of_written hwrite fun hslash => (hpart.2 '/' hslash).1 rfl⟩
    · cases hnone
  · intro directory extension table m m' path hwrite
    exact liesIn_of_write hwrite
  · rintro c k m m' printed rfl hprinted
    obtain ⟨path, m₁, rfl, hwrite⟩ := Command.runLoader_ok hprinted
    obtain ⟨hpath, hlies⟩ := liesIn_of_write hwrite
    exact ⟨path, rfl, hpath, hlies⟩

/-- three points are a name like any other -/
def pointsDraft : Draft :=
  { Draft.empty with
    filename := "a.js"
    output := some "out/"
    createLoader := true
    loaderName := some "..." }

def pointsOptions : Options :=
  ⟨"a.js", "out/", false, false, none, true, "...", Extension.standard⟩

/-- a source, and an empty directory beside it -/
def besideMachine : Machine :=
  ⟨⟨[(["a.js"], .file (Utf8.encode "[7]") false none), (["out"], .directory)]⟩, [], [], []⟩

def pointsResult : Except CompileError Report × Machine × SimulatedEngine :=
  (SimulatedEngine.toolchain .builtIn .complete).compileFile pointsOptions besideMachine .standard

/-- The name is taken, and its loader lies in the directory: as part of a compile, by itself, and by
the command, where no name is given. -/
theorem path_contained_points :
    (∃ o, pointsDraft.resolve = .ok o) ∧
    (pointsResult.1.toOption.bind Report.loaderPath = some "out/..." ∧
      LiesIn "out/" "..." "out/...") ∧
    LiesIn "out" "..." "out/..." ∧
    ∃ m', Command.runLoader (.empty "/") ⟨"out", none, none⟩ besideMachine =
      (.ok "out/loader.js\n", m') ∧ LiesIn "out" "loader.js" "out/loader.js" := by
  obtain ⟨htaken, hcompiled, hwritten, -⟩ := path_contained "..."
  obtain ⟨-, -, -, hcommand⟩ := path_contained Options.standardLoaderName
  have hdraft : pointsDraft.resolve = .ok pointsOptions := rfl
  have hresult : pointsResult.1.toOption.bind Report.loaderPath = some "out/..." := rfl
  refine ⟨(htaken pointsDraft rfl).2 ⟨⟨_, rfl⟩, by decide⟩, ⟨hresult, ?_⟩, ?_, ?_⟩
  · exact ((hcompiled pointsDraft pointsOptions hdraft rfl).2.2
      (SimulatedEngine.toolchain .builtIn .complete) besideMachine .standard _ _ _ "out/..." rfl rfl).2
  · exact ((hwritten "out" Extension.standard .builtIn besideMachine _ "out/..." rfl).2).2
      (by decide)
  · refine ⟨_, rfl, ?_⟩
    obtain ⟨path, -, rfl, hlies⟩ := hcommand (.empty "/") ⟨"out", none, none⟩ besideMachine _ _ rfl rfl
    exact hlies.2 (by decide)

/-- **Names are not checked everywhere.** A draft takes `..` for the name of a loader, and the command
takes a path: the loader of `out` is then beside it. -/
theorem not_path_contained :
    (¬∀ (d : Draft) o name, d.resolve = .ok o → d.loaderName = some name → Path.IsNormal name) ∧
    (¬∀ directory name extension table m m' path,
      write directory name extension table m = (.ok path, m') → Path.IsNormal name) ∧
    ¬∀ (c : Config) directory name (extension : Option Text) m m' printed,
      Command.runLoader c ⟨directory, some name, extension⟩ m = (.ok printed, m') →
        LiesIn directory name (Path.join directory name) := by
  refine ⟨?_, ?_, ?_⟩
  · intro h
    exact (h { pointsDraft with loaderName := some ".." } _ ".." rfl rfl).not_above rfl
  · intro h
    exact (h "out" "../boot.js" Extension.standard .builtIn besideMachine _ _ rfl).no_slash
      (by decide)
  · intro h
    exact (h (.empty "/") "out" "../boot.js" none besideMachine _ _ rfl).normal.no_slash (by decide)

end Loader

end CodeCache
