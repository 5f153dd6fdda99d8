/-
What operations that create leave behind, in file systems without links.

No directory goes away and no link comes in (`Growth`), so a path that led to a file still does
(`Orderly.place_growth`). A write puts a file where its path leads (`write_spec`); that file can be
read by its path and by its absolute path (`Orderly.canonical_of_place`, `Orderly.read_text`), unless
some absolute path on the way is too long to be looked up.
-/
import CodeCache.Proofs.Association
import CodeCache.Proofs.System.Walk

namespace CodeCache.FileSystem

/-! ## Nodes -/

theorem node?_put {r : Route} (h : r ≠ []) (fs : FileSystem) (n : Node) (q : Route) :
    (fs.put r n).node? q = if q = r then some n else fs.node? q := by
  by_cases hq : q = []
  · subst hq
    rw [if_neg (Ne.symm h)]
    rfl
  · have hbelow : ∀ files : FileSystem, files.node? q = files.nodes.lookup q := fun files => by
      rw [node?, if_neg (by simpa using hq)]
    rw [hbelow, hbelow, put, Association.lookup_put]

theorem stands_root (fs : FileSystem) : fs.Stands [] where
  names _ h := absurd h List.not_mem_nil
  directories above h := by
    rw [List.prefix_nil.1 h]
    rfl

theorem linkFree_of_nodes {fs : FileSystem}
    (h : ∀ entry ∈ fs.nodes, ∀ target, entry.2 ≠ .link target) : fs.LinkFree := by
  intro r target hr
  by_cases hroot : r.isEmpty = true
  · rw [node?, if_pos hroot] at hr
    cases hr
  · rw [node?, if_neg hroot] at hr
    obtain ⟨before, after, hnodes, -⟩ := List.lookup_eq_some_iff.1 hr
    exact h (r, .link target) (by rw [hnodes]; simp) target rfl

/-- directories stay, and there are links only where there were links before -/
structure Growth (fs fs' : FileSystem) : Prop where
  directories : ∀ q, fs.node? q = some .directory → fs'.node? q = some .directory
  linkFree : fs.LinkFree → fs'.LinkFree

theorem Growth.refl (fs : FileSystem) : Growth fs fs := ⟨fun _ h => h, fun h => h⟩

theorem Growth.trans {fs fs' fs'' : FileSystem} (h : Growth fs fs') (h' : Growth fs' fs'') :
    Growth fs fs'' := by
  constructor
  · intro q hq
    exact h'.directories q (h.directories q hq)
  · intro hlink
    exact h'.linkFree (h.linkFree hlink)

theorem growth_put {fs : FileSystem} {r : Route} {n : Node} (hr : fs.node? r ≠ some .directory)
    (hn : ∀ target, n ≠ .link target) : Growth fs (fs.put r n) := by
  have hne : r ≠ [] := by
    rintro rfl
    exact hr rfl
  constructor
  · intro q hq
    have hother : q ≠ r := by
      rintro rfl
      exact hr hq
    rw [node?_put hne, if_neg hother, hq]
  · intro hlink q target hq
    rw [node?_put hne] at hq
    split_ifs at hq
    · exact hn target (Option.some.inj hq)
    · exact hlink q target hq

/-! ## Places -/

/-- where a path is seen from -/
def origin (here : Route) (p : Text) : Route := if Path.isAbsolute p then [] else here

/-- there are no links, and the directory that paths are seen from stands -/
structure Orderly (fs : FileSystem) (here : Route) : Prop where
  linkFree : fs.LinkFree
  stands : fs.Stands here

variable {fs fs' : FileSystem} {manner : Manner} {here r : Route} {p : Text} {node : Option Node}

theorem Orderly.growth (h : fs.Orderly here) (hgrowth : Growth fs fs') : fs'.Orderly here :=
  ⟨hgrowth.linkFree h.linkFree, h.stands.keeping hgrowth.directories⟩

theorem Stands.origin (h : fs.Stands here) (p : Text) : fs.Stands (origin here p) := by
  unfold FileSystem.origin
  split_ifs
  · exact fs.stands_root
  · exact h

/-- the path can be given to the operating system -/
structure Sayable (p : Text) : Prop where
  no_nul : '\x00' ∉ p
  nonempty : p ≠ []
  short : Utf8.size p ≤ longestPath

theorem Sayable.steppable (h : Sayable p) : Steppable (steps p) := steppable_steps h.no_nul

theorem place_eq (hp : Sayable p) (fs : FileSystem) (here : Route) (manner : Manner) :
    fs.place here manner p = fs.walkThrough manner mostLinks (origin here p) (steps p) := by
  rw [place, if_neg (by simpa using hp.no_nul), if_neg (by simpa using hp.nonempty),
    if_neg (Nat.not_lt.2 hp.short), origin]

/-- without links, a path that can be said is walked once -/
theorem place_of_sayable (hlink : fs.LinkFree) (hp : Sayable p) :
    fs.place here manner p =
      match fs.walk manner (origin here p) (steps p) with
      | .arrived place => .ok place
      | .failed e => .error e
      | .link .. => .error .tooManyLinks := by
  rw [place_eq hp, walkThrough]
  have hlinks := fs.walk_ne_link hlink manner (origin here p)
  cases hwalk : fs.walk manner (origin here p) (steps p) with
  | arrived place => rfl
  | failed e => rfl
  | link stop target rest => exact absurd hwalk (hlinks stop (steps p) rest target)

theorem place_of_passes (hlink : fs.LinkFree) (hp : Sayable p)
    (h : Passes fs manner (origin here p) (steps p) r node) :
    fs.place here manner p = .ok ⟨r, node⟩ := by
  rw [place_of_sayable hlink hp, walk_of_passes hlink h]

theorem passes_of_place (hlink : fs.LinkFree) (h : fs.place here manner p = .ok ⟨r, node⟩) :
    Sayable p ∧ Passes fs manner (origin here p) (steps p) r node := by
  have hp : Sayable p := by
    unfold place at h
    by_cases hnul : List.contains p '\x00' = true
    · rw [if_pos hnul] at h
      cases h
    by_cases hempty : p.isEmpty = true
    · rw [if_neg hnul, if_pos hempty] at h
      cases h
    by_cases hlong : longestPath < Utf8.size p
    · rw [if_neg hnul, if_neg hempty, if_pos hlong] at h
      cases h
    exact ⟨by simpa using hnul, by simpa using hempty, Nat.not_lt.1 hlong⟩
  refine ⟨hp, passes_of_walk hlink ?_⟩
  rw [place_of_sayable hlink hp] at h
  cases hwalk : fs.walk manner (origin here p) (steps p) with
  | arrived place => rw [hwalk] at h; cases h; rfl
  | failed e => rw [hwalk] at h; cases h
  | link stop target rest => rw [hwalk] at h; cases h

/-- what a path leads to is what is there, in a directory that stands -/
theorem Orderly.place_spec (h : fs.Orderly here) (hplace : fs.place here manner p = .ok ⟨r, node⟩) :
    fs.Stands r.dropLast ∧ (∀ name ∈ r, Route.IsName name) ∧ fs.node? r = node := by
  obtain ⟨hp, hpasses⟩ := passes_of_place h.linkFree hplace
  exact hpasses.arrival (h.stands.origin p) hp.steppable

/-- a path leads to the same place after anything was created -/
theorem Orderly.place_growth (h : fs.Orderly here) (hgrowth : Growth fs fs')
    (hplace : fs.place here manner p = .ok ⟨r, node⟩) :
    fs'.place here manner p = .ok ⟨r, fs'.node? r⟩ := by
  obtain ⟨hp, hpasses⟩ := passes_of_place h.linkFree hplace
  exact place_of_passes (hgrowth.linkFree h.linkFree) hp
    (hpasses.keeping (h.stands.origin p) hp.steppable hgrowth.directories)

/-- the last name of a path that leads to something else than a directory -/
theorem Orderly.getLast?_place {name : Text} {before : List Text} (h : fs.Orderly here)
    (hplace : fs.place here manner p = .ok ⟨r, node⟩) (hnode : node ≠ some .directory)
    (hsteps : steps p = before ++ [name]) : r = r.dropLast ++ [name] := by
  obtain ⟨-, hpasses⟩ := passes_of_place h.linkFree hplace
  have hlast := hpasses.getLast? hnode
  rw [hsteps, List.getLast?_concat] at hlast
  obtain ⟨init, hinit⟩ := List.getLast?_eq_some_iff.1 hlast
  rw [hinit, List.dropLast_concat]

/-! ## Creating -/

/-- a write puts a file where its path leads, and not over a directory -/
theorem write_spec {content : Bytes} (h : fs.write here p content = .ok fs') :
    ∃ r node executable, fs.place here .through p = .ok ⟨r, node⟩ ∧ node ≠ some .directory ∧
      fs' = fs.put r (.file content executable none) := by
  unfold write at h
  by_cases hlong : isOverlong p = true
  · rw [if_pos hlong] at h
    cases h
  rw [if_neg hlong] at h
  by_cases hslash : (!p.isEmpty && p.getLast? == some '/' && !List.contains p '\x00') = true
  · rw [if_pos hslash] at h
    cases hplace : fs.place here .upTo (withoutSlashes p) with
    | error e => rw [hplace] at h; cases h
    | ok place => rw [hplace] at h; cases h
  · rw [if_neg hslash] at h
    cases hplace : fs.place here .through p with
    | error e => rw [hplace] at h; cases h
    | ok place =>
      obtain ⟨r, node⟩ := place
      rw [hplace] at h
      cases node with
      | none =>
        cases h
        exact ⟨r, none, false, rfl, by simp, rfl⟩
      | some found =>
        cases found with
        | directory => cases h
        | link target => cases h
        | file old executable program =>
          cases h
          exact ⟨r, _, executable, rfl, by simp, rfl⟩

theorem makeDirectory_growth (h : fs.Orderly here) (hmake : fs.makeDirectory here p = .ok fs') :
    Growth fs fs' := by
  unfold makeDirectory at hmake
  split_ifs at hmake
  cases hplace : fs.place here .upTo (withoutSlashes p) with
  | error e => rw [hplace] at hmake; cases hmake
  | ok place =>
    obtain ⟨r, node⟩ := place
    obtain ⟨-, -, hnode⟩ := h.place_spec hplace
    rw [hplace] at hmake
    cases node with
    | some found => cases hmake
    | none =>
      cases hmake
      exact growth_put (by simp [hnode]) (by simp)

/-- whatever becomes of a chain of directories, those that were made are all that changed -/
theorem makeChain_growth (h : fs.Orderly here) (chain : List Text) :
    Growth fs (fs.makeChain here chain).2 := by
  induction chain with
  | nil => exact Growth.refl fs
  | cons p parents ih =>
    rw [makeChain]
    by_cases hempty : p.isEmpty = true
    · rw [if_pos hempty]
      exact Growth.refl fs
    · rw [if_neg hempty]
      cases hmake : fs.makeDirectory here p with
      | ok made => exact makeDirectory_growth h hmake
      | error e =>
        by_cases he : e = .notFound
        · subst he
          rcases hparents : fs.makeChain here parents with ⟨result, above⟩
          rw [hparents] at ih
          cases result with
          | error e => exact ih
          | ok =>
            dsimp only
            cases hagain : above.makeDirectory here p with
            | ok made => exact ih.trans (makeDirectory_growth (h.growth ih) hagain)
            | error e => exact ih
        · cases e <;> first | exact absurd rfl he | exact Growth.refl fs

theorem makeDirectories_growth (h : fs.Orderly here) (p : Text) :
    Growth fs (fs.makeDirectories here p).2 := makeChain_growth h _

/-! ## Reading back -/

variable {n : Node}

/-- what is there is there under its absolute path, which is found unless it is too long -/
theorem Orderly.canonical_of_place (h : fs.Orderly here)
    (hplace : fs.place here .through p = .ok ⟨r, some n⟩) (hn : n ≠ .directory) :
    (fs.canonical here p = .ok r.text ∧ Utf8.size r.text ≤ longestPath) ∨
      fs.canonical here p = .error .nameTooLong := by
  obtain ⟨hp, hpasses⟩ := passes_of_place h.linkFree hplace
  rcases hpasses.spelled h.linkFree with hspelled | hlong
  · left
    rw [canonical, place_of_passes h.linkFree hp hspelled]
    exact ⟨rfl, hspelled.size_le (by simpa using hn)⟩
  · right
    rw [canonical, place_of_sayable h.linkFree hp, hlong]
    rfl

/-- an absolute path is never too long, nor is one that is short enough behind its directory -/
theorem Orderly.canonical_of_fits (h : fs.Orderly here)
    (hplace : fs.place here .through p = .ok ⟨r, some n⟩)
    (hfits : Path.isAbsolute p = true ∨
      Utf8.size here.text + 1 + Utf8.size p ≤ longestPath) :
    fs.canonical here p = .ok r.text := by
  obtain ⟨hp, hpasses⟩ := passes_of_place h.linkFree hplace
  have hextent : Route.extent (origin here p) +
      Route.extent ((steps p).filter (· != ['.'])) ≤ longestPath := by
    have hsteps := extent_steps_le p
    have hhere := Route.extent_le_size_text here
    have hshort := hp.short
    unfold origin
    by_cases habs : Path.isAbsolute p = true
    · rw [if_pos habs] at hsteps ⊢
      have hroot : Route.extent [] = 0 := rfl
      omega
    · rw [if_neg habs] at hsteps ⊢
      have := hfits.resolve_left habs
      omega
  rw [canonical, place_of_passes h.linkFree hp (hpasses.spelled_of_extent hextent)]
  rfl

/-- a file can be read by its absolute path, wherever that is seen from -/
theorem Orderly.read_text {content : Bytes} {executable : Bool} {program : Option Program}
    (h : fs.Orderly here)
    (hplace : fs.place here manner p = .ok ⟨r, some (.file content executable program)⟩)
    (hsize : Utf8.size r.text ≤ longestPath) (there : Route) :
    fs.read there r.text = .ok content := by
  obtain ⟨hstands, hnames, hnode⟩ := h.place_spec hplace
  have hne : r ≠ [] := by
    rintro rfl
    cases hnode
  obtain ⟨above, name, rfl⟩ := (List.eq_nil_or_concat' r).resolve_left hne
  rw [List.dropLast_concat] at hstands
  have hp : Sayable (Route.text (above ++ [name])) :=
    ⟨Route.no_nul_text hnames, by rw [Route.text_eq_intercalate hne]; simp, hsize⟩
  have hpasses : Passes fs .through (origin there (Route.text (above ++ [name])))
      (steps (Route.text (above ++ [name]))) (above ++ [name])
      (some (.file content executable program)) := by
    rw [origin, if_pos (Route.isAbsolute_text _), steps_text hne hnames, ← hnode]
    exact passes_absolute hstands (hnames name (by simp)) (by simp [hnode])
  rw [read, find, place_of_passes h.linkFree hp hpasses]
  rfl

end CodeCache.FileSystem
