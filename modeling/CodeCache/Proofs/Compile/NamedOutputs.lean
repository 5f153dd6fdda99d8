/-
Where the outputs of a compile go, by the paths of its options.

For options whose paths never go up, the cache and the loader go to the places their paths name, in
the directory the output path names. Writing them succeeds exactly where there is room
(`Wrote.room`, `writeOutputs_of_room`), and what it changes are these places (`Wrote`).
-/
import CodeCache.Proofs.Compile.Collisions
import CodeCache.Proofs.System.NamedChanges

namespace CodeCache

open FileSystem

/-! ## Names in a directory -/

theorem IsPlain.relative {name : Text} (h : IsPlain name) : Path.isAbsolute name = false :=
  Path.isAbsolute_of_no_slash h.2

theorem IsPlain.names {name : Text} (h : IsPlain name) (hdot : name ≠ ['.']) :
    Path.names name = [name] := Path.names_name h.1 h.2 hdot

/-- a name with a stem and an extension is neither `.` nor `..` -/
theorem IsPlain.extended_ne {stem bare : Text} (hstem : IsPlain stem) (hbare : IsPlain bare) :
    stem ++ '.' :: bare ≠ ['.'] ∧ stem ++ '.' :: bare ≠ ['.', '.'] := by
  have hlong : 2 < (stem ++ '.' :: bare).length := by
    have hs := List.length_pos_iff.2 hstem.1
    have hb := List.length_pos_iff.2 hbare.1
    rw [List.length_append, List.length_cons]
    omega
  constructor <;> intro heq <;> exact absurd (heq ▸ hlong) (by decide)

theorem Draft.compiledName_ne {d : Draft} {o : Options} (hd : d.resolve = .ok o) :
    o.compiledName ≠ ['.'] ∧ o.compiledName ≠ ['.', '.'] := by
  obtain ⟨-, -, stem, bare, hstem, hbare, -, hname⟩ := Draft.resolve_spec hd
  exact hname ▸ hstem.extended_ne hbare

/-! ## Options without `..` -/

namespace Options

/-- no path of the options goes up -/
structure Straight (o : Options) : Prop where
  filename : Path.Straight o.filename
  output : Path.Straight o.output
  loaderName : o.loaderName ≠ ['.', '.']

variable {o : Options} {d : Draft} {fs fs' fs'' : FileSystem} {here r : Route} {cache content : Bytes}
  {script : Text}

theorem named_cachePath (hd : d.resolve = .ok o) (here : Route) :
    named here o.cachePath = named here o.output ++ [o.compiledName] := by
  have hplain := Draft.isPlain_compiledName hd
  rw [cachePath, named_join hplain.relative, hplain.names (Draft.compiledName_ne hd).1]

theorem straight_cachePath (hd : d.resolve = .ok o) (ho : o.Straight) :
    Path.Straight o.cachePath := by
  have hplain := Draft.isPlain_compiledName hd
  obtain ⟨hdot, hdots⟩ := Draft.compiledName_ne hd
  rw [cachePath, Path.Straight, Path.names_join hplain.relative, hplain.names hdot,
    List.mem_append, List.mem_singleton]
  rintro (hmem | hmem)
  · exact ho.output hmem
  · exact hdots hmem.symm

theorem straight_loaderPath (hd : d.resolve = .ok o) (ho : o.Straight) :
    Path.Straight o.loaderPath := by
  obtain ⟨hplain, -⟩ := Draft.resolve_spec hd
  rw [loaderPath, Path.Straight, Path.names_join hplain.relative, List.mem_append]
  rintro (hmem | hmem)
  · exact ho.output hmem
  · by_cases hdot : o.loaderName = ['.']
    · rw [hdot] at hmem
      exact absurd hmem (by decide)
    · rw [hplain.names hdot, List.mem_singleton] at hmem
      exact ho.loaderName hmem.symm

theorem named_loaderPath (hd : d.resolve = .ok o) (hdot : o.loaderName ≠ ['.']) (here : Route) :
    named here o.loaderPath = named here o.output ++ [o.loaderName] := by
  obtain ⟨hplain, -⟩ := Draft.resolve_spec hd
  rw [loaderPath, named_join hplain.relative, hplain.names hdot]

/-! ## What is written -/

/-- what the options leave at a place: the loader there, or else the cache -/
def leftAt (o : Options) (here : Route) (cache : Bytes) (script : Text) (r : Route) : Option Bytes :=
  if o.createLoader = true ∧ r = named here o.loaderPath then some (Utf8.encode script)
  else if r = named here o.cachePath then some cache
  else none

/-- `fs'` is `fs` with the outputs, and the directories they are in -/
structure Wrote (o : Options) (here : Route) (cache : Bytes) (script : Text)
    (fs fs' : FileSystem) : Prop where
  stands : fs'.Stands (named here o.output)
  clear : fs.Clear (named here o.output)
  free : ∀ r content, o.leftAt here cache script r = some content → fs.node? r ≠ some .directory
  left : ∀ r content, o.leftAt here cache script r = some content →
    fs'.node? r = some (.file content (mayExecute (fs.node? r)) none)
  others : ∀ r, o.leftAt here cache script r = none → ¬r <+: named here o.output →
    fs'.node? r = fs.node? r

/-- the paths of the options can be written to -/
structure Writable (o : Options) : Prop where
  output : o.output = [] ∨ Sayable o.output
  names : ∀ name ∈ Path.names o.output, Route.IsName name
  cache : FilePath o.cachePath
  loader : o.createLoader = true → o.loaderName ≠ ['.'] ∧ FilePath o.loaderPath

/-- nothing is in the way of the outputs -/
structure Room (o : Options) (fs : FileSystem) (here : Route) : Prop where
  clear : fs.Clear (named here o.output)
  cache : fs.node? (named here o.cachePath) ≠ some .directory
  loader : o.createLoader = true → fs.node? (named here o.loaderPath) ≠ some .directory

/-- there was room when there was less -/
theorem Room.of_keeps (h : o.Room fs' here) (hkeeps : Keeps fs fs') : o.Room fs here where
  clear := hkeeps.clear h.clear
  cache hnode := h.cache (hkeeps.directory hnode)
  loader hcreate hnode := h.loader hcreate (hkeeps.directory hnode)

theorem leftAt_of_loader (hcreate : o.createLoader = true) (here : Route) (cache : Bytes)
    (script : Text) :
    o.leftAt here cache script = fun r =>
      if r = named here o.loaderPath then some (Utf8.encode script)
      else if r = named here o.cachePath then some cache else none := by
  funext r
  simp only [leftAt, hcreate, true_and]

theorem leftAt_of_no_loader (hcreate : o.createLoader = false) (here : Route) (cache : Bytes)
    (script : Text) :
    o.leftAt here cache script = fun r =>
      if r = named here o.cachePath then some cache else none := by
  funext r
  simp only [leftAt, hcreate, Bool.false_eq_true, false_and, if_false]

theorem leftAt_loaderPath (hcreate : o.createLoader = true) :
    o.leftAt here cache script (named here o.loaderPath) = some (Utf8.encode script) :=
  if_pos ⟨hcreate, rfl⟩

theorem exists_leftAt_cachePath (o : Options) (here : Route) (cache : Bytes) (script : Text) :
    ∃ content, o.leftAt here cache script (named here o.cachePath) = some content := by
  unfold leftAt
  by_cases hloader : o.createLoader = true ∧ named here o.cachePath = named here o.loaderPath
  · exact ⟨_, if_pos hloader⟩
  · exact ⟨cache, by rw [if_neg hloader, if_pos rfl]⟩

/-- what was written does not go away, nor does anything else -/
theorem Wrote.keeps (h : o.Wrote here cache script fs fs') : Keeps fs fs' := by
  intro r n hr
  cases hleft : o.leftAt here cache script r with
  | some content =>
    have hn : n ≠ .directory := by
      rintro rfl
      exact h.free r content hleft hr
    exact ⟨_, h.left r content hleft, iff_of_false (by simp) hn⟩
  | none =>
    by_cases habove : r <+: named here o.output
    · refine ⟨_, h.stands.directories r habove, iff_of_true rfl ?_⟩
      rcases h.clear r habove with hdirectory | hnone
      · exact Option.some.inj (hr.symm.trans hdirectory)
      · rw [hnone] at hr
        cases hr
    · exact ⟨n, (h.others r hleft habove).trans hr, Iff.rfl⟩

/-- after the outputs were written there is room for them, whatever was kept since -/
theorem Wrote.room (h : o.Wrote here cache script fs fs') (hkeeps : Keeps fs' fs'') :
    o.Room fs'' here := by
  have hfile : ∀ r content, o.leftAt here cache script r = some content →
      fs''.node? r ≠ some .directory := by
    intro r content hleft hnode
    obtain ⟨n', hnode', hn'⟩ := hkeeps r _ (h.left r content hleft)
    rw [hnode, Option.some.injEq] at hnode'
    exact absurd (hn'.1 hnode'.symm) (by simp)
  refine ⟨fun above habove => .inl (hkeeps.directory (h.stands.directories above habove)), ?_, ?_⟩
  · obtain ⟨content, hleft⟩ := exists_leftAt_cachePath o here cache script
    exact hfile _ content hleft
  · intro hcreate
    exact hfile _ _ (leftAt_loaderPath hcreate)

end Options

/-! ## Files put at places -/

/-- `fs'` is `fs` with files of these contents at their places, none of them a directory before -/
structure Filled (fs fs' : FileSystem) (contents : Route → Option Bytes) : Prop where
  free : ∀ r content, contents r = some content → fs.node? r ≠ some .directory
  files : ∀ r content, contents r = some content →
    fs'.node? r = some (.file content (mayExecute (fs.node? r)) none)
  others : ∀ r, contents r = none → fs'.node? r = fs.node? r

theorem filled_nothing (fs : FileSystem) : Filled fs fs fun _ => none :=
  ⟨fun _ _ h => (by cases h), fun _ _ h => (by cases h), fun _ _ => rfl⟩

namespace Machine

variable {m m' : Machine} {p : Text} {content : Bytes} {fs : FileSystem}
  {contents : Route → Option Bytes}

/-- the machine with a file at the place a path names -/
def withFile (m : Machine) (p : Text) (content : Bytes) : Machine :=
  m.withFiles (m.files.put (named m.directory p)
    (.file content (mayExecute (m.files.node? (named m.directory p))) none))

theorem directory_withFile (m : Machine) (p : Text) (content : Bytes) :
    (m.withFile p content).directory = m.directory := rfl

/-- a path that never goes up is written to at the place it names -/
theorem write_named (hm : m.files.Orderly m.directory) (hp : Path.Straight p)
    (h : m.write p content = (.ok (), m')) :
    FilePath p ∧ m.files.node? (named m.directory p) ≠ some .directory ∧
      m' = m.withFile p content ∧ m'.files.Orderly m'.directory := by
  have horderly := (find_write hm h).1
  obtain ⟨files, hwrite, rfl⟩ := write_eq_ok_iff.1 h
  obtain ⟨hpath, hstands, hnode⟩ := hm.filePath_of_write hp hwrite
  have hexact := (hm.write_filePath hpath hstands hnode content).symm.trans hwrite
  exact ⟨hpath, hnode, by rw [withFile, Except.ok.inj hexact], horderly⟩

theorem write_of_free (hm : m.files.Orderly m.directory) (hp : FilePath p)
    (hstands : m.files.Stands (named m.directory p).dropLast)
    (hnode : m.files.node? (named m.directory p) ≠ some .directory) (content : Bytes) :
    m.write p content = (.ok (), m.withFile p content) := by
  rw [Machine.write, hm.write_filePath hp hstands hnode content]
  rfl

/-- the file is at its place, and everything else is as it was -/
theorem node?_withFile (hnode : m.files.node? (named m.directory p) ≠ some .directory)
    (content : Bytes) (r : Route) :
    (m.withFile p content).files.node? r =
      if r = named m.directory p then
        some (.file content (mayExecute (m.files.node? (named m.directory p))) none)
      else m.files.node? r := by
  have hne : named m.directory p ≠ [] := by
    intro hnil
    rw [hnil] at hnode
    exact hnode rfl
  exact node?_put hne _ _ r

/-- one more file goes over those before it -/
theorem filled_withFile (h : Filled fs m.files contents)
    (hnode : m.files.node? (named m.directory p) ≠ some .directory) (content : Bytes) :
    Filled fs (m.withFile p content).files
      fun r => if r = named m.directory p then some content else contents r := by
  have hbefore : fs.node? (named m.directory p) ≠ some .directory ∧
      mayExecute (m.files.node? (named m.directory p)) =
        mayExecute (fs.node? (named m.directory p)) := by
    cases hold : contents (named m.directory p) with
    | none =>
      rw [← h.others _ hold]
      exact ⟨hnode, rfl⟩
    | some old => exact ⟨h.free _ old hold, by rw [h.files _ old hold]; rfl⟩
  refine ⟨?_, ?_, ?_⟩
  · intro r other hr
    split_ifs at hr with hplace
    · exact hplace ▸ hbefore.1
    · exact h.free r other hr
  · intro r other hr
    rw [node?_withFile hnode content]
    split_ifs at hr with hplace
    · cases hr
      rw [if_pos hplace, hbefore.2, hplace]
    · rw [if_neg hplace, h.files r other hr]
  · intro r hr
    rw [node?_withFile hnode content]
    split_ifs at hr with hplace
    rw [if_neg hplace, h.others r hr]

end Machine

/-! ## Outputs written -/

theorem not_concat_begins (r : Route) (name : Text) : ¬r ++ [name] <+: r := by
  intro h
  have hlength := h.length_le
  rw [List.length_append, List.length_singleton] at hlength
  omega

/-- files put into a directory that was opened for them -/
theorem Options.wrote_of_filled {d : Draft} {o : Options} {fs fs₁ fs' : FileSystem} {here : Route}
    {cache : Bytes} {script : Text} (hd : d.resolve = .ok o)
    (hdot : o.createLoader = true → o.loaderName ≠ ['.'])
    (hopens : Opens fs fs₁ (named here o.output))
    (hfilled : Filled fs₁ fs' (o.leftAt here cache script)) :
    o.Wrote here cache script fs fs' := by
  have hinside : ∀ r content, o.leftAt here cache script r = some content →
      ¬r <+: named here o.output := by
    intro r content hleft
    unfold leftAt at hleft
    split_ifs at hleft with hloader hcache
    · rw [hloader.2, named_loaderPath hd (hdot hloader.1)]
      exact not_concat_begins _ _
    · rw [hcache, named_cachePath hd]
      exact not_concat_begins _ _
  have houtside : ∀ r content, o.leftAt here cache script r = some content →
      fs₁.node? r = fs.node? r := fun r content hleft =>
    hopens.others r (hinside r content hleft)
  refine ⟨⟨hopens.stands.names, ?_⟩, hopens.clear, ?_, ?_, ?_⟩
  · intro above habove
    cases hleft : o.leftAt here cache script above with
    | some content => exact absurd habove (hinside above content hleft)
    | none => rw [hfilled.others above hleft, hopens.stands.directories above habove]
  · intro r content hleft
    rw [← houtside r content hleft]
    exact hfilled.free r content hleft
  · intro r content hleft
    rw [← houtside r content hleft]
    exact hfilled.files r content hleft
  · intro r hleft habove
    rw [hfilled.others r hleft, hopens.others r habove]

/-- a file that was written is not named `.` -/
theorem FileSystem.FilePath.ne_here {base name : Text} (h : FilePath (Path.join base name))
    (hplain : IsPlain name) : name ≠ ['.'] := by
  obtain ⟨init, last, hpieces, hdot⟩ := h.last
  obtain ⟨before, hsteps⟩ := exists_steps_join hplain.1 hplain.2 base
  rw [steps_eq, hpieces, if_neg (by simpa using h.no_slash), List.append_nil] at hsteps
  obtain rfl := List.singleton_inj.1 (List.append_inj' hsteps rfl).2
  exact hdot

namespace Toolchain

variable {σ : Type} {T : Toolchain σ} {d : Draft} {o : Options} {m m' : Machine} {cache : Bytes}
  {script : Text} {loaderPath : Option Text}

/-- what creating the output directory leaves -/
theorem opens_makeDirectories {made : Machine} (ho : Path.Straight o.output)
    (hm : m.files.Orderly m.directory) (h : m.makeDirectories o.output = (.ok (), made)) :
    made.directory = m.directory ∧ made = m.withFiles made.files ∧
      made.files.Orderly made.directory ∧
      Opens m.files made.files (named m.directory o.output) := by
  have hmade : made = (m.makeDirectories o.output).2 := by rw [h]
  have hresult : (m.files.makeDirectories m.directory o.output).1 = .ok () :=
    congrArg Prod.fst h
  subst hmade
  exact ⟨rfl, rfl, hm.growth (makeDirectories_growth hm o.output),
    makeDirectories_ok hm ho (Prod.ext hresult rfl)⟩

/-- **Outputs that were written**: their paths could be, and they are all that changed, with the
directories they are in -/
theorem wrote_of_writeOutputs (hd : d.resolve = .ok o) (ho : o.Straight)
    (hm : m.files.Orderly m.directory) (hrender : Loader.render o.extension T.layouts = .ok script)
    (h : T.writeOutputs o cache m = (.ok loaderPath, m')) :
    loaderPath = (if o.createLoader then some o.loaderPath else none) ∧ o.Writable ∧
      o.Wrote m.directory cache script m.files m'.files ∧ m' = m.withFiles m'.files ∧
      m'.files.Orderly m'.directory := by
  obtain ⟨hloaderName, -⟩ := Draft.resolve_spec hd
  obtain ⟨m₁, m₂, hmake, hcache, hloader⟩ := writeOutputs_ok h
  obtain ⟨hdirectory, hsame, horderly₁, hopens⟩ := opens_makeDirectories ho.output hm hmake
  obtain ⟨hcachePath, hcacheNode, hm₂, horderly₂⟩ :=
    Machine.write_named horderly₁ (Options.straight_cachePath hd ho) hcache
  have hfilled₂ := Machine.filled_withFile (filled_nothing m₁.files) hcacheNode cache
  rw [← hm₂] at hfilled₂
  have hdirectory₂ : m₂.directory = m.directory := by rw [hm₂]; exact hdirectory
  have hsame₂ : m₂ = m.withFiles m₂.files := by rw [hm₂, hsame]; rfl
  have houtput : o.output = [] ∨ Sayable o.output :=
    or_iff_not_imp_left.2 (hcachePath.sayable.begins
      (Path.begins_join (Draft.isPlain_compiledName hd).relative o.output))
  have hnames : ∀ name ∈ Path.names o.output, Route.IsName name := fun name hmem =>
    hopens.stands.names name (List.mem_append_right _ hmem)
  rcases writeLoader_ok hloader with ⟨hcreate, rfl, script', hrender', hwrite⟩ | ⟨hcreate, rfl, rfl⟩
  · obtain rfl : script' = script := Except.ok.inj (hrender'.symm.trans hrender)
    obtain ⟨hloaderPath, hloaderNode, hm', horderly⟩ :=
      Machine.write_named horderly₂ (Options.straight_loaderPath hd ho) hwrite
    have hdot := hloaderPath.ne_here hloaderName
    have hfilled := Machine.filled_withFile hfilled₂ hloaderNode (Utf8.encode script')
    rw [← hm', hdirectory, hdirectory₂, ← Options.leftAt_of_loader hcreate] at hfilled
    refine ⟨(if_pos hcreate).symm, ⟨houtput, hnames, hcachePath, fun _ => ⟨hdot, hloaderPath⟩⟩,
      Options.wrote_of_filled hd (fun _ => hdot) hopens hfilled, ?_, horderly⟩
    rw [hm', hsame₂]
    rfl
  · have hoff : ¬o.createLoader = true := by simp [hcreate]
    rw [hdirectory, ← Options.leftAt_of_no_loader hcreate m.directory cache script] at hfilled₂
    exact ⟨(if_neg hoff).symm,
      ⟨houtput, hnames, hcachePath, fun hon => absurd hon hoff⟩,
      Options.wrote_of_filled hd (fun hon => absurd hon hoff) hopens hfilled₂, hsame₂, horderly₂⟩

theorem writeLoader_of_room (hm : m.files.Orderly m.directory)
    (hrender : Loader.render o.extension T.layouts = .ok script)
    (hpath : o.createLoader = true → FilePath o.loaderPath ∧
      m.files.Stands (named m.directory o.loaderPath).dropLast ∧
      m.files.node? (named m.directory o.loaderPath) ≠ some .directory) :
    ∃ loaderPath m', T.writeLoader o m = (.ok loaderPath, m') := by
  rw [writeLoader_eq]
  by_cases hcreate : o.createLoader = true
  · obtain ⟨hloader, hstands, hnode⟩ := hpath hcreate
    have hwrite := Machine.write_of_free hm hloader hstands hnode (Utf8.encode script)
    rw [if_pos hcreate, Loader.write_eq, hrender]
    dsimp only
    rw [show Path.join o.output o.loaderName = o.loaderPath from rfl, hwrite]
    exact ⟨_, _, rfl⟩
  · rw [if_neg hcreate]
    exact ⟨_, _, rfl⟩

/-- **Outputs that can be written**: their paths can be, there is room for them, and the directory
stands that a `.` at the end of the output path is looked up in -/
theorem writeOutputs_of_room (hd : d.resolve = .ok o) (hm : m.files.Orderly m.directory)
    (hrender : Loader.render o.extension T.layouts = .ok script) (hwritable : o.Writable)
    (hroom : o.Room m.files m.directory)
    (hends : Path.endsHere o.output = true → m.files.Stands (named m.directory o.output))
    (cache : Bytes) :
    ∃ loaderPath m', T.writeOutputs o cache m = (.ok loaderPath, m') := by
  obtain ⟨m₁, hmake⟩ : ∃ m₁, m.makeDirectories o.output = (.ok (), m₁) := by
    obtain ⟨files, hfiles⟩ :=
      makeDirectories_of_clear hm hwritable.output hwritable.names hroom.clear hends
    exact ⟨m.withFiles files, by rw [Machine.makeDirectories, hfiles]⟩
  obtain ⟨hdirectory, -, hm₁, hopens⟩ :=
    opens_makeDirectories (straight_of_isName hwritable.names) hm hmake
  -- the outputs are not among the directories, so there is still room for them
  have hsame : ∀ name, m₁.files.node? (named m.directory o.output ++ [name]) =
      m.files.node? (named m.directory o.output ++ [name]) := fun name =>
    hopens.others _ (not_concat_begins _ _)
  rw [← hdirectory] at hopens hroom hsame
  have hcachePlace := Options.named_cachePath hd m₁.directory
  have hcacheNode : m₁.files.node? (named m₁.directory o.cachePath) ≠ some .directory := by
    rw [hcachePlace, hsame, ← hcachePlace]
    exact hroom.cache
  have hcacheStands : m₁.files.Stands (named m₁.directory o.cachePath).dropLast := by
    rw [hcachePlace, List.dropLast_concat]
    exact hopens.stands
  have hcache := Machine.write_of_free hm₁ hwritable.cache hcacheStands hcacheNode cache
  have hm₂ := (Machine.find_write hm₁ hcache).1
  have hnode := Machine.node?_withFile hcacheNode cache
  have hstands : (m₁.withFile o.cachePath cache).files.Stands (named m₁.directory o.output) := by
    refine hopens.stands.keeping ?_
    intro q hq
    rw [hnode, if_neg]
    · exact hq
    · rintro rfl
      exact hcacheNode hq
  obtain ⟨loaderPath, m', hloader⟩ := writeLoader_of_room hm₂ hrender (by
    intro hcreate
    obtain ⟨hdot, hpath⟩ := hwritable.loader hcreate
    have hplace := Options.named_loaderPath hd hdot m₁.directory
    refine ⟨hpath, ?_, ?_⟩
    · rw [Machine.directory_withFile, hplace, List.dropLast_concat]
      exact hstands
    · rw [hnode]
      split_ifs
      · simp
      · rw [Machine.directory_withFile, hplace, hsame, ← hplace]
        exact hroom.loader hcreate)
  exact ⟨loaderPath, m', by rw [writeOutputs_eq, hmake]; dsimp only; rw [hcache]; exact hloader⟩

end Toolchain

end CodeCache
