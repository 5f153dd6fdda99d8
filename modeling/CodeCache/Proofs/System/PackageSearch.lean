/-
The search for the Electron package, and what the spelling of its start changes.

The search goes up the text of a path. For a path through standing directories these are the places
from the one it names up to where it is seen from: all that are above, if it is absolute, and none
above the working directory, if it is relative (`searched_of_relative`). Main result,
`locateElectron_spelled`: the binary found is that of the nearest usable package in those places, so
two spellings of one directory find the same file if both are absolute or both are relative.

They do not in general (`not_locateElectron_unspelled`): a package above the working directory is not
seen from a relative path, and a path with `..` sees the packages of directories that it leaves again.
-/
import CodeCache.Compile.Pipeline
import CodeCache.Proofs.System.NamedPlaces

namespace CodeCache

namespace Machine

open FileSystem

/-! ## Packages by place -/

/-- the record of a package, seen from the directory that has the package -/
def packageRecord : Text :=
  Path.join (Path.join (Path.join [] "node_modules") "electron") "path.txt"

/-- the binary that the record names, seen from there too -/
def packageBinary (record : Text) : Text :=
  Path.join (Path.join (Path.join (Path.join [] "node_modules") "electron") "dist")
    (Text.trim record)

/-- the file that a path leads to, and its place -/
def fileOf? (m : Machine) (p : Text) : Option (Route × Node) :=
  match m.files.find m.directory p with
  | .ok (r, .file content executable program) => some (r, .file content executable program)
  | _ => none

/-- the binary of the package in a directory -/
def electronAt? (m : Machine) (r : Route) : Option (Route × Node) :=
  let there := { m with directory := r }
  (there.packagedElectron? []).bind there.fileOf?

/-- the places that are looked at, the nearest first -/
def searched (m : Machine) (p : Text) : List Route :=
  (Path.names p).inits.reverse.map (origin m.directory p ++ ·)

/-- the paths of the package in a directory are short enough to be looked at -/
def packageFits (m : Machine) (dir : Text) : Bool :=
  Utf8.size (Path.join dir packageRecord) ≤ longestPath &&
    match m.readText (Path.join dir packageRecord) with
    | .ok record => Utf8.size (Path.join dir (packageBinary record)) ≤ longestPath
    | .error _ => true

/-- a search can start here: the path names a directory, without `..` or links on the way, and no
path of the search is too long -/
structure Searchable (m : Machine) (p : Text) : Prop where
  sayable : Sayable p
  stands : m.files.Stands (named m.directory p)
  fits : ∀ dir ∈ Path.ancestors p, m.packageFits dir = true

/-- what the search answers that starts at `p` and looks at these places: the binary of the first
that has a usable package, or what is on PATH -/
def Located (m : Machine) (p : Text) (places : List Route) : Prop :=
  match places.findSome? m.electronAt? with
  | some file => ∃ path, m.locateElectron none p = .ok path ∧ '/' ∈ path ∧
    m.fileOf? path = some file
  | none => m.locateElectron none p =
    match m.which? "electron" with
    | some path => .ok path
    | none => .error (.missing "electron"
      ("no node_modules/electron above ".toList ++ p ++ " and not in PATH".toList))

variable {m : Machine} {p q : Text}

theorem packagedElectron?_eq (m : Machine) (dir : Text) :
    m.packagedElectron? dir =
      match m.readText (Path.join dir packageRecord) with
      | .ok record =>
        if m.isFile (Path.join dir (packageBinary record)) then
          some (Path.join dir (packageBinary record))
        else none
      | .error _ => none := by
  have hpackage : Path.join (Path.join dir "node_modules") "electron" =
      Path.join dir (Path.join (Path.join [] "node_modules") "electron") :=
    Path.join_assoc (by decide) _ _
  have hrecord : Path.join (Path.join (Path.join dir "node_modules") "electron") "path.txt" =
      Path.join dir packageRecord := by
    rw [hpackage]
    exact Path.join_assoc (by decide) _ _
  have hdist : Path.join (Path.join (Path.join dir "node_modules") "electron") "dist" =
      Path.join dir (Path.join (Path.join (Path.join [] "node_modules") "electron") "dist") := by
    rw [hpackage]
    exact Path.join_assoc (by decide) _ _
  have hbinary : ∀ record, Path.join (Path.join (Path.join (Path.join dir "node_modules")
      "electron") "dist") (Text.trim record) = Path.join dir (packageBinary record) := by
    intro record
    rw [hdist]
    exact Path.join_assoc (by decide) _ _
  rw [packagedElectron?, hrecord]
  cases m.readText (Path.join dir packageRecord) with
  | error e => rfl
  | ok record => simp only [hbinary]

theorem packageBinary_ne_nil (record : Text) : packageBinary record ≠ [] := fun hnil =>
  absurd (Path.join_eq_nil_iff.1 hnil).1 (by decide)

/-! ## One directory -/

/-- behind standing directories a path of the package leads where it leads from there -/
theorem find_join (hp : '\x00' ∉ p) (h : m.files.Stands (named m.directory p)) (hne : q ≠ [])
    (hsize : Utf8.size (Path.join p q) ≤ longestPath) :
    m.files.find m.directory (Path.join p q) = m.files.find (named m.directory p) q := by
  rw [find, find]
  by_cases hq : Path.isAbsolute q = true
  · rw [Path.join_absolute hq, place_absolute hq m.directory (named m.directory p)]
  · rw [place_join (by decide) hp h hne (by simpa using hq) hsize]

theorem slash_mem_of_packagedElectron? {dir path : Text} (h : m.packagedElectron? dir = some path) :
    '/' ∈ path := by
  rw [packagedElectron?_eq] at h
  cases hread : m.readText (Path.join dir packageRecord) with
  | error e => simp only [hread] at h; cases h
  | ok record =>
    simp only [hread, Option.ite_none_right_eq_some, Option.some.injEq] at h
    rw [← h.2]
    exact Path.slash_mem_join (.inr (Path.slash_mem_join (.inl (by decide))))

theorem isFile_eq (m : Machine) (p : Text) : m.isFile p = (m.fileOf? p).isSome := by
  rw [Machine.isFile, FileSystem.isFile, fileOf?]
  cases m.files.find m.directory p with
  | error e => rfl
  | ok found =>
    obtain ⟨r, node⟩ := found
    cases node <;> rfl

/-- **One directory**: what its text gives is what its place gives -/
theorem packagedElectron?_of_stands (hp : '\x00' ∉ p) (h : m.files.Stands (named m.directory p))
    (hfits : m.packageFits p = true) :
    (m.packagedElectron? p).map m.fileOf? =
      (m.electronAt? (named m.directory p)).map some := by
  rw [packageFits, Bool.and_eq_true, decide_eq_true_iff] at hfits
  obtain ⟨hrecordSize, hbinarySize⟩ := hfits
  set there : Machine := { m with directory := named m.directory p } with hthere
  have hrecord : m.readText (Path.join p packageRecord) = there.readText packageRecord := by
    rw [Machine.readText, Machine.readText, FileSystem.readText, FileSystem.readText,
      FileSystem.read, FileSystem.read, find_join hp h (by decide) hrecordSize]
  have helectron : m.electronAt? (named m.directory p) =
      (there.packagedElectron? []).bind there.fileOf? := rfl
  rw [helectron, packagedElectron?_eq, packagedElectron?_eq, Path.join_nil_left, hrecord]
  rw [hrecord] at hbinarySize
  cases hread : there.readText packageRecord with
  | error e => rfl
  | ok record =>
    simp only [hread, decide_eq_true_iff] at hbinarySize
    have hplace : m.fileOf? (Path.join p (packageBinary record)) =
        there.fileOf? (packageBinary record) := by
      rw [fileOf?, fileOf?, find_join hp h (packageBinary_ne_nil record) hbinarySize]
    simp only [Path.join_nil_left, isFile_eq, hplace]
    cases hfile : there.fileOf? (packageBinary record) with
    | none => rfl
    | some file => simp [hplace, hfile]

/-! ## All directories above -/

/-- **The whole search** looks at the places one after another, the nearest first -/
theorem Searchable.nearestElectron? (h : m.Searchable p) :
    (m.nearestElectron? p).map m.fileOf? =
      ((m.searched p).findSome? m.electronAt?).map some := by
  have hone : ∀ q ∈ Path.ancestors p, (m.packagedElectron? q).map m.fileOf? =
      (m.electronAt? (origin m.directory p ++ Path.names q)).map some := by
    intro q hq
    obtain ⟨hbegins, -, -⟩ := Path.mem_ancestors hq
    have hstands := h.stands.above (named_begins_of_mem_ancestors hq m.directory)
    rw [packagedElectron?_of_stands (fun hnul => h.sayable.no_nul (hbegins.subset hnul)) hstands
      (h.fits q hq), named, origin_of_mem_ancestors hq]
  rw [Machine.nearestElectron?, searched, List.findSome?_map, List.map_findSome?,
    List.map_findSome?]
  exact Path.findSome?_ancestors hone

theorem Searchable.located (h : m.Searchable p)
    (hfree : m.firstVariable? ["KILN_ELECTRON", "ELECTRON_EXEC_PATH"] = none) :
    m.Located p (m.searched p) := by
  have hsearch := h.nearestElectron?
  unfold Located locateElectron
  rw [Option.none_or, hfree]
  dsimp only
  cases hplaces : (m.searched p).findSome? m.electronAt? with
  | none =>
    rw [hplaces, Option.map_none, Option.map_eq_none_iff] at hsearch
    rw [hsearch]
    cases m.which? "electron" <;> rfl
  | some r =>
    rw [hplaces, Option.map_some, Option.map_eq_some_iff] at hsearch
    obtain ⟨path, hpath, hplace⟩ := hsearch
    obtain ⟨dir, -, hdir⟩ := List.exists_of_findSome?_eq_some hpath
    exact ⟨path, by rw [hpath]; rfl, slash_mem_of_packagedElectron? hdir, hplace⟩

theorem searched_of_absolute (h : Path.isAbsolute p = true) :
    m.searched p = (named m.directory p).inits.reverse := by
  have horigin : origin m.directory p = [] := by rw [origin, if_pos h]
  simp [searched, named, horigin]

/-- a relative path leaves out what is above the working directory -/
theorem searched_of_relative (h : Path.isAbsolute p = false) :
    (named m.directory p).inits.reverse = m.searched p ++ m.directory.inits.reverse.tail := by
  have horigin : origin m.directory p = m.directory := by
    rw [origin, h]
    rfl
  have hends : ∀ r : Route, r.inits.reverse = r :: r.inits.reverse.tail := by
    intro r
    rcases List.eq_nil_or_concat' r with rfl | ⟨init, last, rfl⟩
    · rfl
    · simp [List.inits_append]
  have hstarts : (Path.names p).inits = [] :: (Path.names p).inits.tail := by
    cases Path.names p <;> rfl
  rw [named, horigin, List.inits_append, searched, horigin, List.reverse_append,
    hends m.directory, hstarts]
  simp

/-! ## Two spellings -/

/-- both searches find the same file, and so the same program, or both find none -/
def SameElectron (m : Machine) (p q : Text) : Prop :=
  match m.locateElectron none p, m.locateElectron none q with
  | .ok path, .ok path' =>
    m.fileOf? path = m.fileOf? path' ∧ m.program m.directory path = m.program m.directory path'
  | .error _, .error _ => True
  | _, _ => False

theorem find_of_fileOf? {file : Route × Node} (h : m.fileOf? p = some file) :
    m.files.find m.directory p = .ok file := by
  unfold fileOf? at h
  cases hfind : m.files.find m.directory p with
  | error e => rw [hfind] at h; cases h
  | ok found =>
    obtain ⟨r, node⟩ := found
    rw [hfind] at h
    cases node <;> cases h
    rfl

/-- a path with a slash is started by what it leads to -/
theorem program_of_fileOf? {file : Route × Node} (hslash : '/' ∈ p) (h : m.fileOf? p = some file) :
    m.program m.directory p = m.load m.directory p := by
  have hp := sayable_of_place (place_of_find (find_of_fileOf? h))
  rw [Machine.program, if_neg (by simpa using hp.no_nul), if_neg (by simpa using hp.nonempty),
    if_pos (by simpa using hslash)]

/-- searches through places whose first package is the same find the same -/
theorem sameElectron_of_located {places places' : List Route} (h : m.Located p places)
    (h' : m.Located q places')
    (hsame : places.findSome? m.electronAt? = places'.findSome? m.electronAt?) :
    m.SameElectron p q := by
  unfold Located at h h'
  rw [← hsame] at h'
  unfold SameElectron
  cases hfound : places.findSome? m.electronAt? with
  | some file =>
    rw [hfound] at h h'
    obtain ⟨path, hlocate, hslash, hfile⟩ := h
    obtain ⟨path', hlocate', hslash', hfile'⟩ := h'
    rw [hlocate, hlocate']
    refine ⟨hfile.trans hfile'.symm, ?_⟩
    rw [program_of_fileOf? hslash hfile, program_of_fileOf? hslash' hfile', load, load,
      find_of_fileOf? hfile, find_of_fileOf? hfile']
  | none =>
    rw [hfound] at h h'
    rw [h, h']
    cases m.which? "electron" with
    | some path => exact ⟨rfl, rfl⟩
    | none => trivial

end Machine

/-- a compile with the Electron that is found from the directory of its source -/
structure Options.SearchesFrom (o : Options) (p : Text) : Prop where
  electron : o.electron = true
  unnamed : o.electronPath = none
  directory : Path.directory o.filename = p

variable {m : Machine} {p q : Text}

/-- executables that start one program compile alike, or both do not start -/
theorem Isolated.compile_of_program {path path' : Text}
    (h : m.program m.directory path = m.program m.directory path') (flags : EngineFlags)
    (source : Text) :
    Isolated.compile flags path source m = Isolated.compile flags path' source m ∨
      ∃ e e', Isolated.compile flags path source m = (.error e, m) ∧
        Isolated.compile flags path' source m = (.error e', m) := by
  unfold Isolated.compile
  rw [← h]
  cases m.program m.directory path with
  | error e => exact .inr ⟨_, _, rfl, rfl⟩
  | ok program => exact .inl rfl

/-- where the same is found, the same comes of a source, or nothing does -/
theorem Toolchain.compileSource_of_same {σ : Type} (T : Toolchain σ) {o o' : Options}
    (ho : o.SearchesFrom p) (ho' : o'.SearchesFrom q) (h : m.SameElectron p q) (source : Text)
    (s : σ) :
    T.compileSource o source m s = T.compileSource o' source m s ∨
      ∃ e e', T.compileSource o source m s = (.error (.engine e), m, s) ∧
        T.compileSource o' source m s = (.error (.engine e'), m, s) := by
  simp only [compileSource, compileIsolated, ho.electron, ho'.electron, ho.unnamed, ho'.unnamed,
    ho.directory, ho'.directory, if_true]
  unfold Machine.SameElectron at h
  cases hp : m.locateElectron none p with
  | error e =>
    cases hq : m.locateElectron none q with
    | error e' => exact .inr ⟨e, e', rfl, rfl⟩
    | ok path' =>
      rw [hp, hq] at h
      exact h.elim
  | ok path =>
    cases hq : m.locateElectron none q with
    | error e' =>
      rw [hp, hq] at h
      exact h.elim
    | ok path' =>
      rw [hp, hq] at h
      rcases Isolated.compile_of_program h.2 T.flags source with hsame | ⟨e, e', he, he'⟩
      · exact .inl (by simp only [hsame])
      · exact .inr ⟨e, e', by simp only [he], by simp only [he']⟩

namespace Machine

open FileSystem

/-- **One directory, spelled twice.** Let two paths name one directory, without `..` or links on the
way. Each search finds the binary of the first usable package in the places it looks at, or else what
is on PATH. For an absolute path these are all places at or above the directory; a relative one leaves
out those above the working directory. So both find the same file and program, and compile a source to
the same, if both are absolute, both are relative, or no package is above the working directory. -/
theorem locateElectron_spelled (hfree : m.firstVariable? ["KILN_ELECTRON", "ELECTRON_EXEC_PATH"] = none)
    (hp : m.Searchable p) (hq : m.Searchable q)
    (hsame : named m.directory p = named m.directory q) :
    (m.Located p (m.searched p) ∧ m.Located q (m.searched q)) ∧
    (named m.directory p).inits.reverse =
      m.searched p ++ (if Path.isAbsolute p then [] else m.directory.inits.reverse.tail) ∧
    (Path.isAbsolute p = Path.isAbsolute q ∨
        (∀ above ∈ m.directory.inits.reverse.tail, m.electronAt? above = none) →
      m.SameElectron p q ∧
      ∀ {σ : Type} (T : Toolchain σ) {o o' : Options}, o.SearchesFrom p → o'.SearchesFrom q →
        ∀ (source : Text) (s : σ),
          T.compileSource o source m s = T.compileSource o' source m s ∨
            ∃ e e', T.compileSource o source m s = (.error (.engine e), m, s) ∧
              T.compileSource o' source m s = (.error (.engine e'), m, s)) := by
  have hplaces : ∀ p, (named m.directory p).inits.reverse =
      m.searched p ++ (if Path.isAbsolute p then [] else m.directory.inits.reverse.tail) := by
    intro p
    cases habsolute : Path.isAbsolute p with
    | true => rw [if_pos rfl, List.append_nil, searched_of_absolute habsolute]
    | false => rw [if_neg (by simp), searched_of_relative habsolute]
  refine ⟨⟨hp.located hfree, hq.located hfree⟩, hplaces p, ?_⟩
  intro hseen
  have hfound : (m.searched p).findSome? m.electronAt? = (m.searched q).findSome? m.electronAt? := by
    have hboth := (hplaces p).symm.trans ((congrArg (·.inits.reverse) hsame).trans (hplaces q))
    rcases hseen with hkind | hnone
    · rw [hkind] at hboth
      rw [List.append_cancel_right hboth]
    · have hrest : ∀ p, (if Path.isAbsolute p then [] else m.directory.inits.reverse.tail).findSome?
          m.electronAt? = none := by
        intro p
        split_ifs
        · rfl
        · exact List.findSome?_eq_none_iff.2 hnone
      have hfirst := congrArg (List.findSome? m.electronAt?) hboth
      rwa [List.findSome?_append, List.findSome?_append, hrest p, hrest q, Option.or_none,
        Option.or_none] at hfirst
  have helectron := sameElectron_of_located (hp.located hfree) (hq.located hfree) hfound
  refine ⟨helectron, ?_⟩
  intro σ T o o' ho ho' source s
  exact T.compileSource_of_same ho ho' helectron source s

/-! ## A package beside a directory -/

/-- `/w/app` is an empty directory, and `/w` has a package -/
def packagedFiles : FileSystem :=
  ⟨[(["w"], .directory), (["w", "app"], .directory), (["w", "node_modules"], .directory),
    (["w", "node_modules", "electron"], .directory),
    (["w", "node_modules", "electron", "dist"], .directory),
    (["w", "node_modules", "electron", "path.txt"], .file (Utf8.encode "bin\n") false none),
    (["w", "node_modules", "electron", "dist", "bin"],
      .file [] true (some ⟨"electron", .compiler ⟨none, [], [], 0, true⟩⟩))]⟩

def packagedMachine (directory : Route) : Machine := ⟨packagedFiles, directory, [], []⟩

theorem stands_app : packagedFiles.Stands ["w", "app"] := by decide +kernel

/-- from `/w` the package is found, whether its directory is spelled from there or from the root -/
theorem locateElectron_spelled_below :
    (packagedMachine ["w"]).locateElectron none "./app//" =
      .ok "./node_modules/electron/dist/bin" ∧
    (packagedMachine ["w"]).locateElectron none "/w/app/." =
      .ok "/w/node_modules/electron/dist/bin" ∧
    (packagedMachine ["w"]).SameElectron "./app//" "/w/app/." := by
  have hrelative : (packagedMachine ["w"]).Searchable "./app//" :=
    ⟨⟨by decide, by decide, by decide⟩, stands_app, by decide +kernel⟩
  have habsolute : (packagedMachine ["w"]).Searchable "/w/app/." :=
    ⟨⟨by decide, by decide, by decide⟩, stands_app, by decide +kernel⟩
  obtain ⟨-, -, hspelled⟩ := locateElectron_spelled rfl hrelative habsolute rfl
  exact ⟨rfl, rfl, (hspelled (.inr (by decide +kernel))).1⟩

/-- **Spelling matters.** From the root, `.` sees no package, and `w/..`, which leads there too, sees
that of `/w`; from `/w/app`, its absolute path sees the package, and `.` does not. -/
theorem not_locateElectron_unspelled :
    (¬∀ (m : Machine) (p q : Text) (r : Route),
      m.firstVariable? ["KILN_ELECTRON", "ELECTRON_EXEC_PATH"] = none →
      m.files.find m.directory p = .ok (r, .directory) →
      m.files.find m.directory q = .ok (r, .directory) → m.SameElectron p q) ∧
    ¬∀ (m : Machine) (p q : Text) (r : Route), Path.Straight p → Path.Straight q →
      m.firstVariable? ["KILN_ELECTRON", "ELECTRON_EXEC_PATH"] = none →
      m.files.find m.directory p = .ok (r, .directory) →
      m.files.find m.directory q = .ok (r, .directory) → m.SameElectron p q := by
  constructor
  · intro h
    exact h (packagedMachine []) "." "w/.." [] rfl rfl rfl
  · intro h
    exact h (packagedMachine ["w", "app"]) "." "/w/app" ["w", "app"] (by decide) (by decide) rfl rfl
      rfl

end Machine

end CodeCache
