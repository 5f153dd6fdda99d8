/-
The configuration that a build starts from, and where its paths lead.

The search goes up from the working directory and tries three names in each directory. Main result,
`load_nearest`: starts that have the same nearest directory with a configuration find the same file
in it and load the same configuration, whose root is that directory, so a target resolves to the same
options from all of them; and every relative path of these options lies under the root.

Nothing on this way is seen from the working directory, as all paths that are looked up are absolute:
those of the search (`find?_text`), that of the file (`loadFile_congr`), and with it the root and
what is resolved against it (`resolve_eq_placed`).
-/
import CodeCache.Config
import CodeCache.Proofs.Compile.Resolution
import CodeCache.Proofs.System.NamedPlaces

namespace CodeCache

/-! ## Absolute paths -/

namespace FileSystem

variable {p : Text}

theorem find_absolute (h : Path.isAbsolute p = true) (fs : FileSystem) (here there : Route) :
    fs.find here p = fs.find there p := by
  rw [find, find, place_absolute h here there]

theorem existsAt_absolute (h : Path.isAbsolute p = true) (fs : FileSystem) (here there : Route) :
    fs.existsAt here p = fs.existsAt there p := by
  rw [existsAt, existsAt, find_absolute h fs here there]

theorem readText_absolute (h : Path.isAbsolute p = true) (fs : FileSystem) (here there : Route) :
    fs.readText here p = fs.readText there p := by
  rw [readText, readText, read, read, find_absolute h fs here there]

end FileSystem

/-- a search that goes up passes by the places below one at which it finds nothing -/
theorem Route.findSome?_above {β : Type} {g : Route → Option β} {dir start : Route}
    (habove : dir <+: start)
    (hbelow : ∀ below, dir <+: below → below <+: start → below ≠ dir → g below = none) :
    start.inits.reverse.findSome? g = dir.inits.reverse.findSome? g := by
  induction start using List.reverseRecOn with
  | nil => rw [List.prefix_nil.1 habove]
  | append_singleton start name ih =>
    by_cases hdir : dir = start ++ [name]
    · rw [hdir]
    · have hupper : dir <+: start := (List.prefix_concat_iff.1 habove).resolve_left hdir
      have hnone := hbelow _ habove (List.prefix_refl _) (Ne.symm hdir)
      rw [List.inits_append]
      simp only [List.inits, List.tail_cons, List.map_cons, List.map_nil, List.reverse_append,
        List.reverse_singleton, List.singleton_append, List.findSome?_cons, hnone]
      exact ih hupper fun below h1 h2 => hbelow below h1 (h2.trans (List.prefix_append _ _))

namespace Config

open FileSystem

/-! ## The file -/

/-- a directory has something under a name: the path of the name exists. Links are followed, so one that
leads nowhere is nothing, and so is a path of more than 4095 bytes -/
def holds (m : Machine) (dir : Route) (name : String) : Bool :=
  m.files.existsAt [] (Path.join dir.text name.toList)

/-- `dir` is the nearest directory at or above `start` that has a configuration file, and directories
stand all the way -/
structure Nearest (m : Machine) (dir start : Route) : Prop where
  stands : m.files.Stands start
  above : dir <+: start
  found : ∃ name ∈ names, holds m dir name = true
  none_below : ∀ below, dir <+: below → below <+: start → below ≠ dir →
    ∀ name ∈ names, holds m below name = false

theorem nearest_iff {m : Machine} {dir start : Route} :
    Nearest m dir start ↔ m.files.Stands start ∧ dir <+: start ∧
      (∃ name ∈ names, holds m dir name = true) ∧
      ∀ below ∈ start.inits, dir <+: below → below ≠ dir →
        ∀ name ∈ names, holds m below name = false := by
  simp only [List.mem_inits]
  constructor
  · intro h
    exact ⟨h.stands, h.above, h.found, fun below hstart hdir => h.none_below below hdir hstart⟩
  · rintro ⟨hstands, habove, hfound, hnone⟩
    exact ⟨hstands, habove, hfound, fun below hdir hstart => hnone below hstart hdir⟩

instance (m : Machine) (dir start : Route) : Decidable (Nearest m dir start) :=
  decidable_of_iff' _ nearest_iff

theorem isName_of_mem_names {name : String} (h : name ∈ names) : Route.IsName name.toList := by
  simp only [names, List.mem_cons, List.not_mem_nil, or_false] at h
  rcases h with rfl | rfl | rfl <;> decide

section Search

variable {m : Machine} {dir start : Route}

theorem isAbsolute_join_name {name : String} (h : name ∈ names) (dir : Route) :
    Path.isAbsolute (Path.join dir.text name.toList) = true := by
  have habsolute := Route.isAbsolute_text dir
  have hne : dir.text ≠ [] := by
    intro hnil
    rw [hnil] at habsolute
    cases habsolute
  rw [Path.isAbsolute_join hne (Path.isAbsolute_of_no_slash (isName_of_mem_names h).no_slash),
    habsolute]

/-- the search looks at the places above the start one after another, from wherever it is run -/
theorem find?_text (m : Machine) (h : ∀ name ∈ start, Route.IsName name) :
    find? m start.text = start.inits.reverse.findSome? fun dir =>
      (names.find? (holds m dir)).map fun name => Path.join dir.text name.toList := by
  rw [find?, Path.ancestors_text h, List.findSome?_map]
  congr 1
  funext dir
  rw [Function.comp_apply, List.find?_map]
  congr 1
  apply List.find?_congr
  intro name hname
  exact existsAt_absolute (isAbsolute_join_name hname dir) m.files _ _

theorem Nearest.find?_eq (h : Nearest m dir start) :
    ∃ name, names.find? (holds m dir) = some name ∧
      find? m start.text = some (Path.join dir.text name.toList) := by
  obtain ⟨found, hfound, hholds⟩ := h.found
  obtain ⟨name, hname⟩ : ∃ name, names.find? (holds m dir) = some name :=
    Option.isSome_iff_exists.1 (List.find?_isSome.2 ⟨found, hfound, hholds⟩)
  refine ⟨name, hname, ?_⟩
  rw [find?_text m h.stands.names, Route.findSome?_above h.above]
  · have hfirst : dir.inits.reverse = dir :: dir.inits.reverse.tail := by
      rcases List.eq_nil_or_concat' dir with rfl | ⟨init, last, rfl⟩
      · rfl
      · simp [List.inits_append]
    rw [hfirst, List.findSome?_cons, hname]
    rfl
  · intro below hdir hstart hne
    have hnone : names.find? (holds m below) = none := by
      rw [List.find?_eq_none]
      intro name hname
      simp [h.none_below below hdir hstart hne name hname]
    rw [hnone]
    rfl

/-- an absolute path is loaded alike from everywhere -/
theorem loadFile_congr {p : Text} (h : Path.isAbsolute p = true) (m : Machine) (a b : Route) :
    loadFile { m with directory := a } p = loadFile { m with directory := b } p := by
  simp only [loadFile, Machine.readText, existsAt_absolute h m.files a b,
    readText_absolute h m.files a b]

theorem root_of_parse? {root text : Text} {c : Config} (h : parse? root text = some c) :
    c.root = root := by
  simp only [parse?, Option.bind_eq_some_iff] at h
  obtain ⟨value, -, hc⟩ := h
  unfold ofJson? at hc
  split at hc
  · simp only [Option.bind_eq_bind, Option.bind_eq_some_iff, Option.some.injEq] at hc
    obtain ⟨_, -, _, -, _, -, _, -, rfl⟩ := hc
    rfl
  · cases hc

theorem root_of_loadFile {p : Text} {c : Config} (h : loadFile m p = .ok c) :
    c.root = Path.directory p := by
  unfold loadFile at h
  split_ifs at h
  cases hread : m.readText p with
  | error e => rw [hread] at h; cases h
  | ok text =>
    simp only [hread] at h
    cases hparse : parse? (Path.directory p) text with
    | none => rw [hparse] at h; cases h
    | some d =>
      rw [hparse] at h
      cases h
      exact root_of_parse? hparse

/-- what is loaded from a start is the file in the nearest directory -/
theorem Nearest.load_eq (h : Nearest m dir start) {name : String}
    (hname : names.find? (holds m dir) = some name) :
    load { m with directory := start } none =
      loadFile { m with directory := start } (Path.join dir.text name.toList) := by
  have hthere : Nearest { m with directory := start } dir start :=
    ⟨h.stands, h.above, h.found, h.none_below⟩
  obtain ⟨other, hother, hfind⟩ := hthere.find?_eq
  obtain rfl : name = other := Option.some.inj (hname.symm.trans hother)
  rw [load, Option.none_or]
  simp only [hfind]

end Search

/-! ## Targets -/

/-- a path as it is written, if it is absolute, and otherwise behind the path of a directory -/
def placed (dir : Route) (p : Text) : Text :=
  if Path.isAbsolute p then p else (dir.flatMap fun name => '/' :: name) ++ '/' :: p

section Targets

variable {c : Config} {dir : Route}

theorem resolve_eq_placed (hroot : c.root = dir.text) (h : ∀ name ∈ dir, Route.IsName name)
    (p : Text) : c.resolve p = placed dir p := by
  unfold resolve placed
  split_ifs with hp
  · rfl
  · rw [hroot, Path.join_text h (by simpa using hp)]

/-- the paths of resolved options are those of the target or of the configuration, each placed -/
theorem resolve_targetDraft (hroot : c.root = dir.text) (h : ∀ name ∈ dir, Route.IsName name)
    {t : Target} {o : Options} (ho : (c.targetDraft t).resolve = .ok o) :
    o.filename = placed dir t.filename ∧
      o.output = (t.output.map (placed dir)).getD (Path.directory (placed dir t.filename)) ∧
      o.electronPath = (t.electronPath.or c.electron).map (placed dir) := by
  have hplaced : c.resolve = placed dir := funext (resolve_eq_placed hroot h)
  obtain ⟨-, rfl⟩ := Draft.resolve_eq_ok_iff.1 ho
  simp only [Draft.filled, targetDraft, resolveTarget, Target.toDraft, draft, Draft.empty,
    electronPath, hplaced, Option.or_none, Option.map_or]
  exact ⟨trivial, trivial, trivial⟩

end Targets

/-! ## Starts below one directory -/

/-- **Builds do not depend on where they are started.** Let `dir` be the nearest directory with a
configuration file for two starts. The search gives the same path from both, that of the first of the
three names that `dir` has, and the same configuration is loaded, or none for the same reason. Its
root is `dir`. A target then resolves to the same options, or to the same error; their file name,
output and Electron executable, whether the target names it or the configuration does, are the paths
written, placed in `dir` unless they are absolute. An output that is left out is the directory of the
file name. -/
theorem load_nearest (m : Machine) (dir a b : Route) (ha : Nearest m dir a)
    (hb : Nearest m dir b) :
    let fromA := load { m with directory := a } none
    let fromB := load { m with directory := b } none
    (∃ name, names.find? (holds m dir) = some name ∧
      find? m a.text = some (Path.join dir.text name.toList) ∧
      find? m b.text = some (Path.join dir.text name.toList)) ∧
    fromA = fromB ∧
    ∀ c c', fromA = .ok c → fromB = .ok c' →
      c.root = dir.text ∧ c'.root = dir.text ∧
      ∀ t : Target, (c.targetDraft t).resolve = (c'.targetDraft t).resolve ∧
        ∀ o, (c.targetDraft t).resolve = .ok o →
          o.filename = placed dir t.filename ∧
          o.output = (t.output.map (placed dir)).getD (Path.directory (placed dir t.filename)) ∧
          o.electronPath = (t.electronPath.or c.electron).map (placed dir) := by
  intro fromA fromB
  have hnames : ∀ name ∈ dir, Route.IsName name := (ha.stands.above ha.above).names
  obtain ⟨name, hname, hfindA⟩ := ha.find?_eq
  have hmem : name ∈ names := List.mem_of_find?_eq_some hname
  have hfindB : find? m b.text = some (Path.join dir.text name.toList) := by
    obtain ⟨other, hother, hfind⟩ := hb.find?_eq
    rw [hname] at hother
    cases hother
    exact hfind
  have hloadA : fromA = loadFile { m with directory := a } (Path.join dir.text name.toList) :=
    ha.load_eq hname
  have hloadB : fromB = loadFile { m with directory := b } (Path.join dir.text name.toList) :=
    hb.load_eq hname
  have hsame : fromA = fromB := by
    rw [hloadA, hloadB, loadFile_congr (isAbsolute_join_name hmem dir) m a b]
  refine ⟨⟨name, hname, hfindA, hfindB⟩, hsame, ?_⟩
  intro c c' hc hc'
  have heq : c = c' := Except.ok.inj (hc.symm.trans (hsame.trans hc'))
  have hroot : c.root = dir.text := by
    have hname := isName_of_mem_names hmem
    rw [root_of_loadFile (hloadA.symm.trans hc), Path.join_text_name hnames hname,
      Path.directory_text (List.forall_mem_append.2 ⟨hnames, by simpa using hname⟩)]
  refine ⟨hroot, heq ▸ hroot, ?_⟩
  intro t
  exact ⟨by rw [heq], fun o ho => resolve_targetDraft hroot hnames ho⟩

/-- `/p` has a configuration under two of the names, `/` under the first of all, and nothing below
`/p` has any -/
def nestedFiles : FileSystem :=
  ⟨[(["p"], .directory), (["p", "src"], .directory), (["p", "src", "lib"], .directory),
    (["p", "test"], .directory), (["kiln.toml"], .file [] false none),
    (["p", ".kilnrc.toml"], .file [] false none),
    (["p", "kiln.config.toml"], .file
      (Utf8.encode "engine.electron = \"bin/electron\"\ntarget = []\n") false none)]⟩

def nestedMachine : Machine := ⟨nestedFiles, [], [], []⟩

/-- the directory that has the configuration -/
def nestedRoot : Route := ["p"]

/-- from two directories below `/p`, a target with a relative file name and an absolute output -/
theorem load_nearest_nested :
    find? nestedMachine "/p/src/lib" = some "/p/kiln.config.toml" ∧
    find? nestedMachine "/p/test" = some "/p/kiln.config.toml" ∧
    ∃ c o, load { nestedMachine with directory := ["p", "src", "lib"] } none = .ok c ∧
      load { nestedMachine with directory := ["p", "test"] } none = .ok c ∧
      (c.targetDraft ⟨"main.js", some "/out", false, true, none, false, none, none⟩).resolve =
        .ok o ∧
      o.filename = "/p/main.js".toList ∧ o.output = "/out".toList ∧
      o.electronPath = some "/p/bin/electron".toList := by
  obtain ⟨⟨name, hname, hfindA, hfindB⟩, hsame, hloaded⟩ :=
    load_nearest nestedMachine nestedRoot ["p", "src", "lib"] ["p", "test"] (by decide +kernel)
      (by decide +kernel)
  obtain rfl : "kiln.config.toml" = name := Option.some.inj (Eq.trans (by decide +kernel) hname)
  have hload : load { nestedMachine with directory := ["p", "src", "lib"] } none =
      .ok ⟨none, some "bin/electron", none, none, [], [], "/p"⟩ := by decide +kernel
  obtain ⟨-, -, htarget⟩ := hloaded _ _ hload (hsame.symm.trans hload)
  obtain ⟨-, hpaths⟩ :=
    htarget ⟨"main.js", some "/out", false, true, none, false, none, none⟩
  exact ⟨hfindA, hfindB, _, _, hload, hsame.symm.trans hload, rfl, hpaths _ rfl⟩

end Config

end CodeCache
