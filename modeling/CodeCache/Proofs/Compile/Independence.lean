/-
Builds whose targets do not disturb each other do not depend on their order.

A target leaves its cache and its loader at places of their own, and makes the directories these are
in. If no target leaves a file where another reads its source, and targets that leave a file at one
place leave the same, then all that a part of a build has done is told by the targets in that part,
without their order (`Settled`, `Settled.unique`).

Main result, `compileFiles_perm`. Where a build succeeds, it succeeds in every order: each target gets
the same report, and every place holds the same at the end. It rests on one step in both directions:
- `Progress.step`: a compile that succeeds has room for its outputs, and adds what it leaves.
- `Progress.advance`: where the whole build has room, so has each part of it, and a compile with room
  succeeds.

An output path that ends with a `.` is the exception: it is not created, so such a target succeeds
behind one that creates the directory, and fails in front of it (`not_compileFiles_perm`).
-/
import CodeCache.Proofs.Compile.NamedOutputs
import CodeCache.Proofs.Compile.Runs
import CodeCache.Proofs.Compile.Trees

namespace CodeCache

open FileSystem

/-! ## What targets have done, in any order -/

section Settled

variable {leaves : Options → Route → Option Bytes} {here r : Route} {base fs fs' : FileSystem}
  {done done' : List Options} {o : Options} {p : Text} {content : Bytes}

/-- `fs` is `base` after these targets, whatever order they were in -/
structure Settled (leaves : Options → Route → Option Bytes) (here : Route) (base fs : FileSystem)
    (done : List Options) : Prop where
  left : ∀ o ∈ done, ∀ r content, leaves o r = some content →
    fs.node? r = some (.file content (mayExecute (base.node? r)) none)
  made : ∀ o ∈ done, ∀ r, r <+: named here o.output → fs.node? r = some .directory
  others : ∀ r, (∀ o ∈ done, leaves o r = none ∧ ¬r <+: named here o.output) →
    fs.node? r = base.node? r
  keeps : Keeps base fs

theorem settled_start (leaves : Options → Route → Option Bytes) (here : Route)
    (base : FileSystem) : Settled leaves here base base [] where
  left _ ho := absurd ho List.not_mem_nil
  made _ ho := absurd ho List.not_mem_nil
  others _ _ := rfl
  keeps := Keeps.refl base

/-- what one target has done at a place, or none has -/
theorem Settled.cases (h : Settled leaves here base fs done) (r : Route) :
    (∃ o ∈ done, ∃ content, leaves o r = some content ∧
      fs.node? r = some (.file content (mayExecute (base.node? r)) none)) ∨
    (∃ o ∈ done, r <+: named here o.output ∧ fs.node? r = some .directory) ∨
    (∀ o ∈ done, leaves o r = none ∧ ¬r <+: named here o.output) ∧ fs.node? r = base.node? r := by
  by_cases hleft : ∃ o ∈ done, ∃ content, leaves o r = some content
  · obtain ⟨o, ho, content, hcontent⟩ := hleft
    exact .inl ⟨o, ho, content, hcontent, h.left o ho r content hcontent⟩
  by_cases hmade : ∃ o ∈ done, r <+: named here o.output
  · obtain ⟨o, ho, habove⟩ := hmade
    exact .inr (.inl ⟨o, ho, habove, h.made o ho r habove⟩)
  have hnone : ∀ o ∈ done, leaves o r = none ∧ ¬r <+: named here o.output := by
    intro o ho
    refine ⟨?_, fun habove => hmade ⟨o, ho, habove⟩⟩
    rw [Option.eq_none_iff_forall_ne_some]
    intro content hcontent
    exact hleft ⟨o, ho, content, hcontent⟩
  exact .inr (.inr ⟨hnone, h.others r hnone⟩)

/-- **The order does not matter**: the targets alone say what is there -/
theorem Settled.unique (h : Settled leaves here base fs done)
    (h' : Settled leaves here base fs' done') (hsame : ∀ o, o ∈ done ↔ o ∈ done') (r : Route) :
    fs.node? r = fs'.node? r := by
  rcases h.cases r with ⟨o, ho, content, hcontent, hnode⟩ | ⟨o, ho, habove, hnode⟩ | ⟨hnone, hnode⟩
  · rw [hnode, h'.left o ((hsame o).1 ho) r content hcontent]
  · rw [hnode, h'.made o ((hsame o).1 ho) r habove]
  · rw [hnode, h'.others r fun o ho => hnone o ((hsame o).2 ho)]

/-- more targets keep what there was -/
theorem Settled.keeps_of_subset (h : Settled leaves here base fs done)
    (h' : Settled leaves here base fs' done') (hsub : done ⊆ done') : Keeps fs fs' := by
  intro r n hr
  rcases h.cases r with ⟨o, ho, content, hcontent, hnode⟩ | ⟨o, ho, habove, hnode⟩ | ⟨-, hnode⟩
  · exact ⟨_, h'.left o (hsub ho) r content hcontent, by
      rw [Option.some.inj (hr.symm.trans hnode)]⟩
  · refine ⟨_, h'.made o (hsub ho) r habove, ?_⟩
    rw [Option.some.inj (hr.symm.trans hnode)]
  · exact h'.keeps r n (hnode.symm.trans hr)

/-- one more target, if it agrees with those before it -/
theorem Settled.add {cache : Bytes} {script : Text} (h : Settled leaves here base fs done)
    (hleaves : leaves o = o.leftAt here cache script) (hwrote : o.Wrote here cache script fs fs')
    (hshared : ∀ o' ∈ done, ∀ r content content', leaves o r = some content →
      leaves o' r = some content' → content = content') :
    Settled leaves here base fs' (done ++ [o]) := by
  have hleft : ∀ r, leaves o r = o.leftAt here cache script r := congrFun hleaves
  refine ⟨?_, ?_, ?_, h.keeps.trans hwrote.keeps⟩
  · intro o' ho' r content hcontent
    rcases List.mem_append.1 ho' with ho' | ho'
    · have hnode := h.left o' ho' r content hcontent
      cases hnew : leaves o r with
      | some new =>
        obtain rfl := hshared o' ho' r new content hnew hcontent
        rw [hwrote.left r new (hleft r ▸ hnew), hnode]
        rfl
      | none =>
        have houtside : ¬r <+: named here o.output := by
          intro habove
          rcases hwrote.clear r habove with hdirectory | hnone
          · cases hdirectory.symm.trans hnode
          · cases hnone.symm.trans hnode
        rw [hwrote.others r (hleft r ▸ hnew) houtside, hnode]
    · obtain rfl := List.mem_singleton.1 ho'
      rw [hwrote.left r content (hleft r ▸ hcontent)]
      rcases h.cases r with ⟨-, -, old, -, hnode⟩ | ⟨-, -, -, hnode⟩ | ⟨-, hnode⟩
      · rw [hnode]
        rfl
      · exact absurd hnode (hwrote.free r content (hleft r ▸ hcontent))
      · rw [hnode]
  · intro o' ho' r habove
    rcases List.mem_append.1 ho' with ho' | ho'
    · exact hwrote.keeps.directory (h.made o' ho' r habove)
    · exact hwrote.stands.directories r (List.mem_singleton.1 ho' ▸ habove)
  · intro r hnone
    obtain ⟨hnew, houtside⟩ := hnone o (by simp)
    rw [hwrote.others r (hleft r ▸ hnew) houtside,
      h.others r fun o' ho' => hnone o' (List.mem_append_left _ ho')]

/-! ## Sources -/

/-- a file that no target leaves is the one that was there -/
theorem Settled.node_eq (h : Settled leaves here base fs done)
    (hfree : ∀ o ∈ done, leaves o r = none) {executable : Bool} {program : Option Program}
    (hfile : fs.node? r = some (.file content executable program) ∨
      base.node? r = some (.file content executable program)) :
    fs.node? r = base.node? r := by
  rcases h.cases r with ⟨o, ho, old, hold, -⟩ | ⟨-, -, -, hnode⟩ | ⟨-, hnode⟩
  · rw [hfree o ho] at hold
    cases hold
  · rcases hfile with hfile | hfile
    · cases hnode.symm.trans hfile
    · obtain ⟨n, hn, hdirectory⟩ := h.keeps r _ hfile
      rw [hnode, Option.some.injEq] at hn
      cases hdirectory.1 hn.symm
  · exact hnode

/-- a source that no target overwrites is read after them as it was before -/
theorem Settled.read_iff {m g : Machine} (h : Settled leaves m.directory m.files g.files done)
    (hm : m.IsTree) (hg : g.files.Orderly m.directory) (hdirectory : g.directory = m.directory)
    (hp : Path.Straight p) (hfree : ∀ o ∈ done, leaves o (named m.directory p) = none) :
    g.read p = .ok content ↔ m.read p = .ok content := by
  constructor
  · intro hread
    obtain ⟨r, executable, program, hfind⟩ := Machine.exists_find_of_read hread
    rw [hdirectory] at hfind
    have hplace := place_of_find hfind
    obtain ⟨-, hnames, hnode⟩ := hg.place_spec hplace
    have hpath := hg.filePath_of_place hp hplace (by simp)
    obtain rfl := hg.place_named hp hplace
    have hsame := (h.node_eq hfree (.inl hnode)).symm.trans hnode
    have hstands := hm.grounded.stands_above hnames (by simp [hsame])
    have hbefore := hm.orderly.place_filePath (show Manner.through ≠ .spelled by decide) hpath hstands
    rw [hsame] at hbefore
    exact Machine.read_of_find (find_of_place hbefore)
  · intro hread
    obtain ⟨r, executable, program, hfind⟩ := Machine.exists_find_of_read hread
    have hplace := place_of_find hfind
    obtain ⟨-, -, hnode⟩ := hm.orderly.place_spec hplace
    obtain rfl := hm.orderly.place_named hp hplace
    have hgrowth : Growth m.files g.files :=
      ⟨fun q hq => h.keeps.directory hq, fun _ => hg.linkFree⟩
    have hafter := hm.orderly.place_growth hgrowth hplace
    rw [h.node_eq hfree (.inr hnode), hnode, ← hdirectory] at hafter
    exact Machine.read_of_find (find_of_place hafter)

end Settled

/-! ## One compile on a simulated engine -/

namespace SimulatedEngine

variable {layouts : LayoutTable} {flags : EngineFlags} {o : Options} {m m' : Machine}
  {E E' : SimulatedEngine} {report : Report} {text : Text} {loaderPath : Option Text}

theorem compileFile_of_written (helectron : o.electron = false)
    (hread : m.readSource o.filename = .ok text)
    (hbalanced : balanced 0 (Source.prepare o.asModule text) = true)
    (hwrite : (toolchain layouts flags).writeOutputs o
      (E.cacheOf (Source.prepare o.asModule text)) m = (.ok loaderPath, m')) :
    (toolchain layouts flags).compileFile o m E =
      (.ok ⟨o.filename, o.cachePath, loaderPath, Text.units (Source.prepare o.asModule text),
        (E.cacheOf (Source.prepare o.asModule text)).length⟩, m',
        E.remembering (Source.prepare o.asModule text)) := by
  have hcompile : (toolchain layouts flags).compileSource o (Source.prepare o.asModule text) m E =
      (.ok (E.cacheOf (Source.prepare o.asModule text)), m,
        E.remembering (Source.prepare o.asModule text)) := by
    simp only [Toolchain.compileSource, toolchain, helectron, compileText_engine,
      Bool.false_eq_true, if_false, hbalanced, if_true]
  simp only [Toolchain.compileFile_eq, hread, hcompile, hwrite]

end SimulatedEngine

/-! ## Independent targets -/

/-- the source that a compile of these options starts from -/
def Machine.sourceOf (m : Machine) (o : Options) : Text :=
  match m.readSource o.filename with
  | .ok text => Source.prepare o.asModule text
  | .error _ => []

/-- the loader for an extension -/
def LayoutTable.loaderOf (layouts : LayoutTable) (extension : Text) : Text :=
  match Loader.render extension layouts with
  | .ok script => script
  | .error _ => []

theorem LayoutTable.render_loaderOf {layouts : LayoutTable} {d : Draft} {o : Options}
    (hd : d.resolve = .ok o) :
    Loader.render o.extension layouts = .ok (layouts.loaderOf o.extension) := by
  obtain ⟨script, hscript⟩ := Draft.exists_render hd layouts
  rw [loaderOf, hscript]

namespace SimulatedEngine

/-- what a compile of these options leaves at a place, started on this machine -/
def leaves (E : SimulatedEngine) (layouts : LayoutTable) (m : Machine) (o : Options) (r : Route) :
    Option Bytes :=
  o.leftAt m.directory (E.cacheOf (m.sourceOf o)) (layouts.loaderOf o.extension) r

/-- what it reports -/
def reportOf (E : SimulatedEngine) (m : Machine) (o : Options) : Report :=
  ⟨o.filename, o.cachePath, if o.createLoader then some o.loaderPath else none,
    Text.units (m.sourceOf o), (E.cacheOf (m.sourceOf o)).length⟩

/-- targets that do not disturb each other on this machine -/
structure Independent (E : SimulatedEngine) (layouts : LayoutTable) (m : Machine)
    (options : List Options) : Prop where
  resolved : ∀ o ∈ options, ∃ d : Draft, d.resolve = .ok o
  electron : ∀ o ∈ options, o.electron = false
  straight : ∀ o ∈ options, o.Straight
  /-- no target leaves a file where one has its source -/
  sources : ∀ o ∈ options, ∀ o' ∈ options,
    E.leaves layouts m o (named m.directory o'.filename) = none
  /-- targets that leave a file at one place leave the same -/
  shared : ∀ o ∈ options, ∀ o' ∈ options, ∀ r content content',
    E.leaves layouts m o r = some content → E.leaves layouts m o' r = some content' →
    content = content'

/-- a `.` at the end of the output path is looked up in a directory that is there already -/
def Creatable (m : Machine) (o : Options) : Prop :=
  Path.endsHere o.output = true → m.files.isDirectory m.directory o.output = true

/-- how far a build is after these targets -/
structure Progress (E : SimulatedEngine) (layouts : LayoutTable) (m : Machine) (done : List Options)
    (g : Machine) (C : SimulatedEngine) : Prop where
  machine : g = m.withFiles g.files
  orderly : g.files.Orderly m.directory
  settled : Settled (E.leaves layouts m) m.directory m.files g.files done
  engine : C = { E with compiled := E.compiled ++ done.map m.sourceOf }

/-- the target can be compiled as long as the files keep what is here -/
structure Accepted (m : Machine) (fs : FileSystem) (o : Options) : Prop where
  readable : ∃ text, m.readSource o.filename = .ok text ∧
    balanced 0 (Source.prepare o.asModule text) = true
  writable : o.Writable
  room : o.Room fs m.directory

variable {layouts : LayoutTable} {flags : EngineFlags} {o : Options} {m g g' F : Machine}
  {E C C' CF : SimulatedEngine} {report : Report} {reports : List Report} {text : Text}
  {options options' done rest : List Options}

theorem progress_start (E : SimulatedEngine) (layouts : LayoutTable) (hm : m.IsTree) :
    Progress E layouts m [] m E where
  machine := rfl
  orderly := hm.orderly
  settled := settled_start _ _ _
  engine := by rw [List.map_nil, List.append_nil]

theorem Progress.directory (h : Progress E layouts m done g C) : g.directory = m.directory := by
  rw [h.machine]
  rfl

section Build

variable (hm : m.IsTree) (hind : Independent E layouts m options)
  (h : Progress E layouts m done g C) (hdone : done ⊆ options)

include hm hind h hdone

/-- the sources are read in the middle of a build as they were before it -/
theorem Progress.readSource_iff (ho : o ∈ options) :
    g.readSource o.filename = .ok text ↔ m.readSource o.filename = .ok text := by
  rw [Machine.readSource_ok_iff, Machine.readSource_ok_iff]
  refine exists_congr fun bytes => and_congr_left fun _ => ?_
  exact h.settled.read_iff hm h.orderly h.directory (hind.straight o ho).filename
    fun o' ho' => hind.sources o' (hdone ho') o ho

/-- **One step**: a compile that succeeds adds what its target leaves, and would have succeeded
wherever there is as much room -/
theorem Progress.step (ho : o ∈ options)
    (hcompile : (toolchain layouts flags).compileFile o g C = (.ok report, g', C')) :
    report = E.reportOf m o ∧ Progress E layouts m (done ++ [o]) g' C' ∧
      Keeps g.files g'.files ∧ ∀ fs, Keeps g'.files fs → Accepted m fs o := by
  obtain ⟨d, hd⟩ := hind.resolved o ho
  obtain ⟨text, loaderPath, hread, hbalanced, hwrite, rfl, rfl⟩ :=
    compileFile_inv (hind.electron o ho) hcompile
  have hbefore := (h.readSource_iff hm hind hdone ho).1 hread
  have hsource : Source.prepare o.asModule text = m.sourceOf o := by
    rw [Machine.sourceOf, hbefore]
  have hcache : ∀ source, C.cacheOf source = E.cacheOf source := by
    intro source
    rw [h.engine]
    rfl
  have horderly : g.files.Orderly g.directory := h.directory ▸ h.orderly
  rw [hsource, hcache] at hwrite
  obtain ⟨rfl, hwritable, hwrote, hmachine, horderly'⟩ := Toolchain.wrote_of_writeOutputs hd
    (hind.straight o ho) horderly (LayoutTable.render_loaderOf hd) hwrite
  rw [h.directory] at hwrote
  refine ⟨?_, ⟨?_, ?_, ?_, ?_⟩, hwrote.keeps, ?_⟩
  · rw [hsource, hcache, reportOf]
  · rw [hmachine, h.machine]
    rfl
  · rwa [hmachine, h.machine] at horderly'
  · exact h.settled.add rfl hwrote fun o' ho' => hind.shared o ho o' (hdone ho')
  · rw [hsource, h.engine]
    simp [remembering]
  · intro fs hkeeps
    exact ⟨⟨text, hbefore, hbalanced⟩, hwritable, hwrote.room hkeeps⟩

/-- **One step that can be made**: what is accepted is compiled -/
theorem Progress.advance (flags : EngineFlags) (ho : o ∈ options) (hcreatable : Creatable m o)
    (haccepted : Accepted m g.files o) :
    ∃ g' C', (toolchain layouts flags).compileFile o g C = (.ok (E.reportOf m o), g', C') := by
  obtain ⟨d, hd⟩ := hind.resolved o ho
  obtain ⟨⟨text, hread, hbalanced⟩, hwritable, hroom⟩ := haccepted
  have hnow := (h.readSource_iff hm hind hdone ho).2 hread
  have horderly : g.files.Orderly g.directory := h.directory ▸ h.orderly
  have hends : Path.endsHere o.output = true → g.files.Stands (named g.directory o.output) := by
    intro hdot
    obtain ⟨r, hfind⟩ := exists_find_of_isDirectory (hcreatable hdot)
    rw [h.directory]
    exact (hm.orderly.stands_of_find (hind.straight o ho).output hfind).keeping
      fun q hq => h.settled.keeps.directory hq
  rw [← h.directory] at hroom
  obtain ⟨loaderPath, g', hwrite⟩ := Toolchain.writeOutputs_of_room (T := toolchain layouts flags) hd
    horderly (LayoutTable.render_loaderOf hd) hwritable hroom hends
    (C.cacheOf (Source.prepare o.asModule text))
  have hcompile := compileFile_of_written (hind.electron o ho) hnow hbalanced hwrite
  obtain ⟨hreport, -⟩ := h.step hm hind hdone ho hcompile
  exact ⟨g', _, hreport ▸ hcompile⟩

/-- **A build that succeeded**: it has made progress with all its targets, and each was accepted -/
theorem Progress.run (hrest : rest ⊆ options)
    (hruns : (toolchain layouts flags).Runs g C rest reports g' C') :
    reports = rest.map (E.reportOf m) ∧ Progress E layouts m (done ++ rest) g' C' ∧
      Keeps g.files g'.files ∧ ∀ o ∈ rest, Accepted m g'.files o := by
  induction hruns generalizing done with
  | nil =>
    rw [List.append_nil]
    exact ⟨rfl, h, Keeps.refl _, fun _ ho => absurd ho List.not_mem_nil⟩
  | @cons g C o report g₁ C₁ rest reports g' C' hfile _ ih =>
    obtain ⟨ho, hrest⟩ := List.cons_subset.1 hrest
    obtain ⟨rfl, hnext, hkeeps, haccepted⟩ := h.step hm hind hdone ho hfile
    have hdone' : done ++ [o] ⊆ options := List.append_subset.2 ⟨hdone, by simpa using ho⟩
    obtain ⟨rfl, hprogress, hlater, hothers⟩ := ih hnext hdone' hrest
    rw [List.append_assoc] at hprogress
    refine ⟨rfl, hprogress, hkeeps.trans hlater, ?_⟩
    intro o' ho'
    rcases List.mem_cons.1 ho' with rfl | ho'
    · exact haccepted _ hlater
    · exact hothers o' ho'

/-- **A build that can succeed**: what the files after a whole build have room for can be compiled
behind any part of it -/
theorem Progress.complete (flags : EngineFlags) (hcreatable : ∀ o ∈ options, Creatable m o)
    (hall : Progress E layouts m options F CF) (haccepted : ∀ o ∈ options, Accepted m F.files o)
    (hrest : rest ⊆ options) :
    ∃ g' C', (toolchain layouts flags).Runs g C rest (rest.map (E.reportOf m)) g' C' ∧
      Progress E layouts m (done ++ rest) g' C' := by
  induction rest generalizing done g C with
  | nil => exact ⟨g, C, .nil, by rwa [List.append_nil]⟩
  | cons o rest ih =>
    obtain ⟨ho, hrest⟩ := List.cons_subset.1 hrest
    obtain ⟨hreadable, hwritable, hroom⟩ := haccepted o ho
    have hkeeps := h.settled.keeps_of_subset hall.settled hdone
    obtain ⟨g₁, C₁, hfile⟩ := h.advance hm hind hdone flags ho (hcreatable o ho)
      ⟨hreadable, hwritable, hroom.of_keeps hkeeps⟩
    obtain ⟨-, hnext, -⟩ := h.step hm hind hdone ho hfile
    have hdone' : done ++ [o] ⊆ options := List.append_subset.2 ⟨hdone, by simpa using ho⟩
    obtain ⟨g', C', hruns, hprogress⟩ := ih hnext hdone' hrest
    rw [List.append_assoc] at hprogress
    exact ⟨g', C', .cons hfile hruns, hprogress⟩

end Build

/-- **The order of a build does not matter.** In a tree without symbolic links, let a build of
independent targets succeed on a simulated engine, none of which asks for a `.` in a directory that is
still to be made. In any other order it succeeds as well: each target gets the report it got, every
place holds what it held, and the engine has compiled the same sources in the order of the targets. -/
theorem compileFiles_perm {m₁ : Machine} {E₁ : SimulatedEngine} (hm : m.IsTree)
    (hind : Independent E layouts m options) (hcreatable : ∀ o ∈ options, Creatable m o)
    (hperm : options.Perm options')
    (hbuild : (toolchain layouts flags).compileFiles m E options = (.ok reports, m₁, E₁)) :
    reports = options.map (E.reportOf m) ∧
    ∃ m₂, (toolchain layouts flags).compileFiles m E options' =
        (.ok (options'.map (E.reportOf m)), m₂,
          { E₁ with compiled := E.compiled ++ options'.map m.sourceOf }) ∧
      (∀ r, m₂.files.node? r = m₁.files.node? r) ∧ m₂ = m₁.withFiles m₂.files := by
  have hstart := progress_start E layouts hm
  have hnone := List.nil_subset options
  obtain ⟨hreports, hall, -, haccepted⟩ := hstart.run hm hind hnone
    (List.Subset.refl options) (Toolchain.runs_of_compileFiles hbuild)
  obtain ⟨m₂, E₂, hagain, hprogress⟩ :=
    hstart.complete hm hind hnone flags hcreatable hall haccepted hperm.symm.subset
  refine ⟨hreports, m₂, ?_, ?_, ?_⟩
  · rw [Toolchain.compileFiles_of_runs hagain, hprogress.engine, hall.engine]
    rfl
  · exact hprogress.settled.unique hall.settled fun o => hperm.symm.mem_iff
  · rw [hprogress.machine, hall.machine]
    rfl

/-! ## Two targets -/

/-- targets without loaders are independent if each cache has a place of its own -/
theorem independent_of_apart (hresolved : ∀ o ∈ options, ∃ d : Draft, d.resolve = .ok o)
    (helectron : ∀ o ∈ options, o.electron = false) (hstraight : ∀ o ∈ options, o.Straight)
    (hloader : ∀ o ∈ options, o.createLoader = false)
    (hapart : ∀ o ∈ options, ∀ o' ∈ options,
      named m.directory o.cachePath = named m.directory o'.cachePath → o = o')
    (hsources : ∀ o ∈ options, ∀ o' ∈ options,
      named m.directory o'.filename ≠ named m.directory o.cachePath) :
    Independent E layouts m options := by
  have hcache : ∀ o ∈ options, ∀ r, E.leaves layouts m o r =
      if r = named m.directory o.cachePath then some (E.cacheOf (m.sourceOf o)) else none := by
    intro o ho r
    rw [leaves, Options.leftAt_of_no_loader (hloader o ho)]
  refine ⟨hresolved, helectron, hstraight, ?_, ?_⟩
  · intro o ho o' ho'
    rw [hcache o ho, if_neg (hsources o ho o' ho')]
  · intro o ho o' ho' r content content' hleft hleft'
    rw [hcache o ho] at hleft
    rw [hcache o' ho'] at hleft'
    split_ifs at hleft hleft' with hplace hplace'
    obtain rfl := hapart o ho o' ho' (hplace.symm.trans hplace')
    exact Option.some.inj (hleft.symm.trans hleft')

/-- a source, and a directory for its cache -/
def pairOptions (filename output : Text) : Options :=
  ⟨filename, output, false, false, none, false, Options.standardLoaderName, Extension.standard⟩

/-- two sources in the root -/
def pairMachine : Machine :=
  ⟨⟨[(["a.js"], .file (Utf8.encode "1") false none),
    (["b.js"], .file (Utf8.encode "2") false none)]⟩, [], [], []⟩

theorem isTree_pair : pairMachine.IsTree where
  orderly := ⟨linkFree_of_nodes (by simp [pairMachine]), stands_root _⟩
  grounded := grounded_of_nodes (by decide +kernel)

def pairResult (options : List Options) :
    Except CompileError (List Report) × Machine × SimulatedEngine :=
  (toolchain .builtIn .complete).compileFiles pairMachine standard options

/-- `a.js` and `b.js`, each to a directory -/
def pairTargets (first second : Text) : List Options :=
  [pairOptions "a.js" first, pairOptions "b.js" second]

theorem independent_pair {first second : Text} (hfirst : Path.Straight first)
    (hsecond : Path.Straight second)
    (hapart : ∀ o ∈ pairTargets first second, ∀ o' ∈ pairTargets first second,
      named [] o.cachePath = named [] o'.cachePath → o = o')
    (hsources : ∀ o ∈ pairTargets first second, ∀ o' ∈ pairTargets first second,
      named [] o'.filename ≠ named [] o.cachePath) :
    Independent standard .builtIn pairMachine (pairTargets first second) := by
  have hmem : ∀ o ∈ pairTargets first second, ∃ filename output,
      o = pairOptions filename output ∧ Path.Straight filename ∧ Path.Straight output ∧
        ∃ d : Draft, d.resolve = .ok (pairOptions filename output) := by
    intro o ho
    rcases List.mem_cons.1 ho with rfl | ho
    · exact ⟨"a.js", first, rfl, by decide, hfirst,
        ⟨{ Draft.empty with filename := "a.js", output := some first }, rfl⟩⟩
    · obtain rfl := List.mem_singleton.1 ho
      exact ⟨"b.js", second, rfl, by decide, hsecond,
        ⟨{ Draft.empty with filename := "b.js", output := some second }, rfl⟩⟩
  refine independent_of_apart ?_ ?_ ?_ ?_ hapart hsources <;> intro o ho <;>
    obtain ⟨filename, output, rfl, hfilename, houtput, hresolved⟩ := hmem o ho
  · exact hresolved
  · rfl
  · exact ⟨hfilename, houtput, show Options.standardLoaderName ≠ ['.', '.'] by decide⟩
  · rfl

/-- what a build of targets does here that all succeed -/
theorem compileFiles_pair {options : List Options}
    (h : (pairResult options).1 = .ok (options.map (standard.reportOf pairMachine))) :
    (toolchain .builtIn .complete).compileFiles pairMachine standard options =
      (.ok (options.map (standard.reportOf pairMachine)), (pairResult options).2.1,
        (pairResult options).2.2) := Prod.ext h rfl

/-- a directory and one inside it are made by either target -/
theorem compileFiles_perm_nested :
    let targets := pairTargets "out/lib" "out"
    (pairResult targets).1 = .ok (targets.map (standard.reportOf pairMachine)) ∧
    (pairResult targets.reverse).1 = .ok (targets.reverse.map (standard.reportOf pairMachine)) ∧
    ∀ r, (pairResult targets.reverse).2.1.files.node? r = (pairResult targets).2.1.files.node? r := by
  have hbuild : (pairResult (pairTargets "out/lib" "out")).1 =
      .ok ((pairTargets "out/lib" "out").map (standard.reportOf pairMachine)) := rfl
  have hind : Independent standard .builtIn pairMachine (pairTargets "out/lib" "out") :=
    independent_pair (by decide) (by decide) (by decide +kernel) (by decide +kernel)
  have hcreatable : ∀ o ∈ pairTargets "out/lib" "out", Creatable pairMachine o := by
    unfold Creatable
    decide +kernel
  obtain ⟨-, m₂, hagain, hsame, -⟩ := compileFiles_perm isTree_pair hind hcreatable
    (List.reverse_perm _).symm (compileFiles_pair hbuild)
  have hresult : pairResult (pairTargets "out/lib" "out").reverse = _ := hagain
  dsimp only
  rw [hresult]
  exact ⟨hbuild, rfl, hsame⟩

/-- **The order of a build can matter.** `out/.` is not created where `out` is missing, so a target
that goes there succeeds behind one that goes to `out`, and not in front of it. -/
theorem not_compileFiles_perm :
    ¬∀ (layouts : LayoutTable) (flags : EngineFlags) (m m₁ : Machine)
        (options options' : List Options) (reports : List Report) (E E₁ : SimulatedEngine),
      m.IsTree → Independent E layouts m options → options.Perm options' →
      (toolchain layouts flags).compileFiles m E options = (.ok reports, m₁, E₁) →
      ∃ reports' m₂ E₂,
        (toolchain layouts flags).compileFiles m E options' = (.ok reports', m₂, E₂) := by
  intro h
  have hbuild : (pairResult (pairTargets "out" "out/.")).1 =
      .ok ((pairTargets "out" "out/.").map (standard.reportOf pairMachine)) := rfl
  have hind : Independent standard .builtIn pairMachine (pairTargets "out" "out/.") :=
    independent_pair (by decide) (by decide) (by decide +kernel) (by decide +kernel)
  have hfails : (pairResult (pairTargets "out" "out/.").reverse).1 =
      .error (.file .createDirectory "out/." .notFound) := rfl
  obtain ⟨reports', m₂, E₂, hagain⟩ := h .builtIn .complete pairMachine _ _
    (pairTargets "out" "out/.").reverse _ standard _ isTree_pair hind
    (List.reverse_perm _).symm (compileFiles_pair hbuild)
  have hresult : pairResult (pairTargets "out" "out/.").reverse = _ := hagain
  rw [hresult] at hfails
  cases hfails

end SimulatedEngine

end CodeCache
