/-
Which executable is found.

The sources are asked in an order, and what is named, by an explicit path or by a variable, decides
alone (`Discovers`). The search for a package goes up the text of a path: the binary it finds is that
of the first directory which has a usable package, whatever is wrong with the ones before it
(`nearestElectron?_eq_some_iff`, by induction along the parents).

Main result, `Machine.locate_exact`.
-/
import CodeCache.Proofs.System.Ancestors
import CodeCache.System.Locate

namespace CodeCache

/-- a search finds what the first item gives that gives anything -/
theorem findSome?_eq_some_iff_first {α β : Type} {f : α → Option β} {l : List α} {b : β} :
    l.findSome? f = some b ↔
      ∃ (n : Nat) (x : α), l[n]? = some x ∧ f x = some b ∧
        ∀ k < n, ∀ y : α, l[k]? = some y → f y = none := by
  rw [List.findSome?_eq_some_iff]
  constructor
  · rintro ⟨before, x, after, rfl, hb, hbefore⟩
    refine ⟨before.length, x, by simp, hb, ?_⟩
    intro k hk y hy
    rw [List.getElem?_append_left hk] at hy
    exact hbefore y (List.mem_of_getElem? hy)
  · rintro ⟨n, x, hx, hb, hbefore⟩
    obtain ⟨hn, rfl⟩ := List.getElem?_eq_some_iff.1 hx
    refine ⟨l.take n, l[n], l.drop (n + 1), by simp, hb, ?_⟩
    intro y hy
    obtain ⟨k, hk, rfl⟩ := List.mem_take_iff_getElem.1 hy
    exact hbefore k (by omega) _ (List.getElem?_eq_getElem _)

namespace Path

/-- the path `n` parents above -/
def above? : Nat → Text → Option Text
  | 0, p => some p
  | n + 1, p => (parent? p).bind (above? n)

theorem getElem?_ancestors (n : Nat) (p : Text) : (ancestors p)[n]? = above? n p := by
  induction n generalizing p with
  | zero =>
    cases hparent : parent? p with
    | none => rw [ancestors_of_none hparent]; rfl
    | some q => rw [ancestors_of_parent hparent]; rfl
  | succ n ih =>
    cases hparent : parent? p with
    | none => rw [ancestors_of_none hparent, above?, hparent]; rfl
    | some q =>
      rw [ancestors_of_parent hparent, List.getElem?_cons_succ, ih, above?, hparent]
      rfl

end Path

namespace Machine

/-! ## Packages -/

/-- a directory has a usable package: its record is text, and names a file, seen from `dist`, with no
blanks around -/
structure Usable (m : Machine) (dir binary : Text) : Prop where
  record : ∃ record,
    m.read (Path.join (Path.join (Path.join dir "node_modules") "electron") "path.txt") =
      .ok (Utf8.encode record) ∧
    binary = Path.join (Path.join (Path.join (Path.join dir "node_modules") "electron") "dist")
      (Text.trim record)
  file : m.isFile binary = true

/-- the binary of the first directory, from `p` up, that has a usable package -/
def Nearest (m : Machine) (p binary : Text) : Prop :=
  ∃ n dir, Path.above? n p = some dir ∧ m.Usable dir binary ∧
    ∀ k < n, ∀ nearer, Path.above? k p = some nearer → ∀ other, ¬m.Usable nearer other

variable {m : Machine} {p dir binary : Text}

theorem readText_eq_ok_iff {t : Text} : m.readText p = .ok t ↔ m.read p = .ok (Utf8.encode t) := by
  have hread : m.read p = m.files.read m.directory p := rfl
  rw [readText, FileSystem.readText, ← hread]
  cases m.read p with
  | error e => simp
  | ok bytes =>
    simp only [Except.ok.injEq, ← Utf8.decode?_eq_some_iff]
    cases Utf8.decode? bytes <;> simp

theorem packagedElectron?_eq_some_iff : m.packagedElectron? dir = some binary ↔ m.Usable dir binary := by
  unfold packagedElectron?
  constructor
  · intro h
    dsimp only at h
    split at h
    · next record hread =>
      simp only [Option.ite_none_right_eq_some, Option.some.injEq] at h
      obtain ⟨hfile, rfl⟩ := h
      exact ⟨⟨record, readText_eq_ok_iff.1 hread, rfl⟩, hfile⟩
    · cases h
  · rintro ⟨⟨record, hread, rfl⟩, hfile⟩
    simp only [readText_eq_ok_iff.2 hread, hfile, if_true]

theorem packagedElectron?_eq_none_iff :
    m.packagedElectron? dir = none ↔ ∀ other, ¬m.Usable dir other := by
  simp only [Option.eq_none_iff_forall_ne_some, ne_eq, packagedElectron?_eq_some_iff]

/-- **The search finds the nearest usable package** -/
theorem nearestElectron?_eq_some_iff : m.nearestElectron? p = some binary ↔ m.Nearest p binary := by
  simp only [nearestElectron?, findSome?_eq_some_iff_first, Path.getElem?_ancestors,
    packagedElectron?_eq_some_iff, packagedElectron?_eq_none_iff, Nearest]

/-- a usable package is never hidden -/
theorem exists_nearest_iff :
    (∃ binary, m.Nearest p binary) ↔
      ∃ n dir binary, Path.above? n p = some dir ∧ m.Usable dir binary := by
  constructor
  · rintro ⟨binary, n, dir, hdir, husable, -⟩
    exact ⟨n, dir, binary, hdir, husable⟩
  · rintro ⟨n, dir, binary, hdir, husable⟩
    rw [← Path.getElem?_ancestors] at hdir
    obtain ⟨found, hfound⟩ : ∃ found, m.nearestElectron? p = some found := by
      rw [← Option.isSome_iff_exists, nearestElectron?, List.findSome?_isSome_iff]
      exact ⟨dir, List.mem_of_getElem? hdir, by rw [packagedElectron?_eq_some_iff.2 husable]; rfl⟩
    exact ⟨found, nearestElectron?_eq_some_iff.1 hfound⟩

theorem Nearest.isFile (h : m.Nearest p binary) : m.isFile binary = true := by
  obtain ⟨n, dir, -, husable, -⟩ := h
  exact husable.file

/-! ## Sources -/

/-- what is named: the explicit path, or else the value of the first variable that is set -/
inductive Names (m : Machine) (settings : List String) (explicit : Option Text) : Text → Prop where
  | explicitly {q} : explicit = some q → Names m settings explicit q
  | byVariable {q name before after} : explicit = none → settings = before ++ name :: after →
    (∀ other ∈ before, m.valueOf? other = none) → m.valueOf? name = some q →
    Names m settings explicit q

/-- what comes of a search: a path that is named decides alone; if none is, a package does, and only
without one what is on PATH -/
inductive Discovers (m : Machine) (what : String) (settings : List String) (explicit : Option Text)
    (packaged : Text → Prop) (hint : Text) : Except EngineError Text → Prop where
  | named {q} : m.Names settings explicit q → m.isFile q = true →
    Discovers m what settings explicit packaged hint (.ok q)
  | missing {q} : m.Names settings explicit q → m.isFile q = false →
    Discovers m what settings explicit packaged hint (.error (.missing what q))
  | packaged {q} : (∀ named, ¬m.Names settings explicit named) → packaged q →
    Discovers m what settings explicit packaged hint (.ok q)
  | onPath {q} : (∀ named, ¬m.Names settings explicit named) → (∀ binary, ¬packaged binary) →
    m.which? what = some q → Discovers m what settings explicit packaged hint (.ok q)
  | nowhere : (∀ named, ¬m.Names settings explicit named) → (∀ binary, ¬packaged binary) →
    m.which? what = none → Discovers m what settings explicit packaged hint (.error (.missing what hint))

section Sources

variable {what : String} {settings : List String} {explicit : Option Text}
  {packaged : Text → Prop} {hint q : Text}

theorem names_iff : m.Names settings explicit q ↔
    explicit.or (m.firstVariable? settings) = some q := by
  cases explicit with
  | some given =>
    rw [Option.some_or, Option.some.injEq]
    constructor
    · rintro (h | ⟨h, -⟩)
      · exact Option.some.inj h
      · cases h
    · rintro rfl
      exact .explicitly rfl
  | none =>
    rw [Option.none_or, firstVariable?, List.findSome?_eq_some_iff]
    constructor
    · rintro (h | ⟨-, hsplit, hbefore, hname⟩)
      · cases h
      · exact ⟨_, _, _, hsplit, hname, hbefore⟩
    · rintro ⟨before, name, after, hsplit, hname, hbefore⟩
      exact .byVariable rfl hsplit hbefore hname

theorem not_names_iff : (∀ named, ¬m.Names settings explicit named) ↔
    explicit.or (m.firstVariable? settings) = none := by
  simp only [names_iff, Option.eq_none_iff_forall_ne_some, ne_eq]

/-- a path that is named decides alone -/
theorem existingFile_eq_iff (hq : m.Names settings explicit q) {r : Except EngineError Text} :
    m.existingFile what q = r ↔ m.Discovers what settings explicit packaged hint r := by
  have honly : ∀ other, m.Names settings explicit other → other = q := fun other hother =>
    Option.some.inj ((names_iff.1 hother).symm.trans (names_iff.1 hq))
  rw [existingFile]
  constructor
  · rintro rfl
    cases hfile : m.isFile q with
    | true => exact .named hq hfile
    | false => exact .missing hq hfile
  · rintro (⟨hother, hfile⟩ | ⟨hother, hfile⟩ | ⟨hfree, -⟩ | ⟨hfree, -, -⟩ | ⟨hfree, -, -⟩)
    · obtain rfl := honly _ hother
      rw [if_pos hfile]
    · obtain rfl := honly _ hother
      rw [if_neg (by simp [hfile])]
    · exact absurd hq (hfree q)
    · exact absurd hq (hfree q)
    · exact absurd hq (hfree q)

/-- if nothing is named, a package comes before PATH -/
theorem packagedOrPath_eq_iff (hfree : ∀ named, ¬m.Names settings explicit named)
    {found : Option Text} (hfound : ∀ q, found = some q ↔ packaged q)
    {r : Except EngineError Text} :
    (match found.or (m.which? what) with
      | some q => .ok q
      | none => .error (.missing what hint)) = r ↔
      m.Discovers what settings explicit packaged hint r := by
  cases found with
  | some q =>
    have hq : packaged q := (hfound q).1 rfl
    have honly : ∀ other, packaged other → other = q := fun other hother =>
      Option.some.inj ((hfound other).2 hother).symm
    rw [Option.some_or]
    constructor
    · rintro rfl
      exact .packaged hfree hq
    · rintro (⟨hother, -⟩ | ⟨hother, -⟩ | ⟨-, hother⟩ | ⟨-, hnone, -⟩ | ⟨-, hnone, -⟩)
      · exact absurd hother (hfree _)
      · exact absurd hother (hfree _)
      · rw [honly _ hother]
      · exact absurd hq (hnone q)
      · exact absurd hq (hnone q)
  | none =>
    have hnone : ∀ binary, ¬packaged binary := fun binary hbinary =>
      Option.some_ne_none binary ((hfound binary).2 hbinary).symm
    rw [Option.none_or]
    constructor
    · rintro rfl
      cases hwhich : m.which? what with
      | some q => exact .onPath hfree hnone hwhich
      | none => exact .nowhere hfree hnone hwhich
    · rintro (⟨hother, -⟩ | ⟨hother, -⟩ | ⟨-, hother⟩ | ⟨-, -, hwhich⟩ | ⟨-, -, hwhich⟩)
      · exact absurd hother (hfree _)
      · exact absurd hother (hfree _)
      · exact absurd hother (hnone _)
      · rw [hwhich]
      · rw [hwhich]

/-- **The order of the sources**, for a search that finds `found` in packages -/
theorem discovers_iff (found : Option Text) (hfound : ∀ q, found = some q ↔ packaged q)
    {r : Except EngineError Text} :
    (match explicit.or (m.firstVariable? settings) with
      | some q => m.existingFile what q
      | none =>
        match found.or (m.which? what) with
        | some q => .ok q
        | none => .error (.missing what hint)) = r ↔
      m.Discovers what settings explicit packaged hint r := by
  cases hnamed : explicit.or (m.firstVariable? settings) with
  | some q => exact existingFile_eq_iff (names_iff.2 hnamed)
  | none => exact packagedOrPath_eq_iff (not_names_iff.2 hnamed) hfound

/-- what is found exists, unless it was looked up on PATH -/
theorem Discovers.isFile (h : m.Discovers what settings explicit packaged hint (.ok q))
    (hpackaged : ∀ binary, packaged binary → m.isFile binary = true) :
    m.isFile q = true ∨ (∀ named, ¬m.Names settings explicit named) ∧
      (∀ binary, ¬packaged binary) ∧ m.which? what = some q := by
  cases h with
  | named _ hfile => exact .inl hfile
  | packaged _ hbinary => exact .inl (hpackaged q hbinary)
  | onPath hfree hunpacked hwhich => exact .inr ⟨hfree, hunpacked, hwhich⟩

/-- every failure is a missing dependency -/
theorem Discovers.missing_of_error {e : EngineError}
    (h : m.Discovers what settings explicit packaged hint (.error e)) :
    ∃ place, e = .missing what place := by
  cases h with
  | missing => exact ⟨_, rfl⟩
  | nowhere => exact ⟨_, rfl⟩

end Sources

/-! ## The two searches -/

/-- where Electron was looked for in vain -/
def notAbove (p : Text) : Text :=
  "no node_modules/electron above ".toList ++ p ++ " and not in PATH".toList

variable {explicit : Option Text}

theorem locateNode_eq_iff {r : Except EngineError Text} : m.locateNode explicit = r ↔
    m.Discovers "node" ["KILN_NODE"] explicit (fun _ => False) "not found in PATH" r :=
  discovers_iff none (by simp)

theorem locateElectron_eq_iff {r : Except EngineError Text} : m.locateElectron explicit p = r ↔
    m.Discovers "electron" ["KILN_ELECTRON", "ELECTRON_EXEC_PATH"] explicit (m.Nearest p)
      (notAbove p) r :=
  discovers_iff (m.nearestElectron? p) fun _ => nearestElectron?_eq_some_iff

/-- **What is found, and what is not.** A path that is given, or else the value of the first variable
that is set, decides alone. If nothing is named, Electron is the binary of the nearest usable package
at or above the start of the search, and there is one if any directory above has a usable package;
otherwise what is on PATH. What is found is a file, unless it was looked up on PATH, and every failure
is a missing dependency. -/
theorem locate_exact (m : Machine) (explicit : Option Text) (p : Text) :
    (∀ r, m.locateNode explicit = r ↔
      m.Discovers "node" ["KILN_NODE"] explicit (fun _ => False) "not found in PATH" r) ∧
    (∀ r, m.locateElectron explicit p = r ↔
      m.Discovers "electron" ["KILN_ELECTRON", "ELECTRON_EXEC_PATH"] explicit (m.Nearest p)
        (notAbove p) r) ∧
    ((∃ binary, m.Nearest p binary) ↔
      ∃ n dir binary, Path.above? n p = some dir ∧ m.Usable dir binary) ∧
    (∀ q, m.locateNode explicit = .ok q → m.isFile q = true ∨
      (∀ named, ¬m.Names ["KILN_NODE"] explicit named) ∧ m.which? "node" = some q) ∧
    (∀ q, m.locateElectron explicit p = .ok q → m.isFile q = true ∨
      (∀ named, ¬m.Names ["KILN_ELECTRON", "ELECTRON_EXEC_PATH"] explicit named) ∧
      (∀ binary, ¬m.Nearest p binary) ∧ m.which? "electron" = some q) ∧
    (∀ e, m.locateNode explicit = .error e → ∃ place, e = .missing "node" place) ∧
    ∀ e, m.locateElectron explicit p = .error e → ∃ place, e = .missing "electron" place := by
  refine ⟨fun r => locateNode_eq_iff, fun r => locateElectron_eq_iff, exists_nearest_iff,
    ?nodeFile, ?electronFile, ?nodeError, ?electronError⟩
  case nodeFile =>
    intro q hq
    rcases (locateNode_eq_iff.1 hq).isFile (fun _ hnone => hnone.elim) with hfile | ⟨hfree, -, hwhich⟩
    · exact .inl hfile
    · exact .inr ⟨hfree, hwhich⟩
  case electronFile =>
    intro q hq
    exact (locateElectron_eq_iff.1 hq).isFile fun binary hbinary => hbinary.isFile
  case nodeError =>
    intro e he
    exact (locateNode_eq_iff.1 he).missing_of_error
  case electronError =>
    intro e he
    exact (locateElectron_eq_iff.1 he).missing_of_error

/-- from `/a/b/c` up, each directory has a package: the record of the first is no text, the second
records a file that is not there, and the last two can be used -/
def crowdedFiles : FileSystem :=
  ⟨[(["a"], .directory), (["a", "b"], .directory), (["a", "b", "c"], .directory),
    (["a", "b", "c", "node_modules"], .directory),
    (["a", "b", "c", "node_modules", "electron"], .directory),
    (["a", "b", "c", "node_modules", "electron", "path.txt"], .file [0xff] false none),
    (["a", "b", "node_modules"], .directory), (["a", "b", "node_modules", "electron"], .directory),
    (["a", "b", "node_modules", "electron", "path.txt"], .file (Utf8.encode "bin") false none),
    (["a", "node_modules"], .directory), (["a", "node_modules", "electron"], .directory),
    (["a", "node_modules", "electron", "path.txt"], .file (Utf8.encode " bin\n") false none),
    (["a", "node_modules", "electron", "dist"], .directory),
    (["a", "node_modules", "electron", "dist", "bin"], .file [] false none),
    (["node_modules"], .directory), (["node_modules", "electron"], .directory),
    (["node_modules", "electron", "path.txt"], .file (Utf8.encode "/a/electron") false none),
    (["a", "electron"], .file [] true none), (["a", "node"], .file [] true none)]⟩

def crowdedMachine : Machine :=
  ⟨crowdedFiles, [], [("PATH".toList, "/a".toList), ("KILN_NODE".toList, "/gone".toList)], []⟩

/-- the third package is found and not the fourth, nor what is on PATH; Node is missing, though it is
on PATH, as the variable names no file -/
theorem locate_exact_crowded :
    crowdedMachine.Nearest "/a/b/c" "/a/node_modules/electron/dist/bin" ∧
    crowdedMachine.which? "electron" = some "/a/electron" ∧
    crowdedMachine.locateElectron (some "/gone") "/a/b/c" = .error (.missing "electron" "/gone") ∧
    crowdedMachine.locateNode none = .error (.missing "node" "/gone") ∧
    crowdedMachine.which? "node" = some "/a/node" := by
  obtain ⟨hnode, helectron, -⟩ := locate_exact crowdedMachine none "/a/b/c"
  obtain ⟨-, hgiven, -⟩ := locate_exact crowdedMachine (some "/gone") "/a/b/c"
  have hlocated : crowdedMachine.locateElectron none "/a/b/c" =
      .ok "/a/node_modules/electron/dist/bin" := by decide +kernel
  refine ⟨?_, by decide +kernel, (hgiven _).2 (.missing (.explicitly rfl) (by decide +kernel)),
    (hnode _).2 (.missing (names_iff.2 rfl) (by decide +kernel)), by decide +kernel⟩
  rcases (helectron _).1 hlocated with ⟨hnamed, -⟩ | _ | ⟨-, hnearest⟩ | ⟨-, -, hwhich⟩ | _
  · exact absurd (names_iff.1 hnamed) (by decide +kernel)
  · exact hnearest
  · exact absurd hwhich (by decide +kernel)

end Machine

end CodeCache
