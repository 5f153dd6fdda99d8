/-
The places that paths name by their texts.

A path without `..` names a place: where it is seen from, and its names behind that (`named`). Where
only directories are on the way it leads there, whatever links there are elsewhere
(`place_of_stands`), and what is joined to it is looked for from there (`place_join`). Without links
it leads nowhere else (`Orderly.place_named`).
-/
import CodeCache.Proofs.System.Ancestors
import CodeCache.Proofs.System.Directories

namespace CodeCache

/-- the path never goes up -/
def Path.Straight (p : Text) : Prop := ['.', '.'] ∉ Path.names p

instance (p : Text) : Decidable (Path.Straight p) :=
  decidable_of_iff ((Path.names p).all (· != ['.', '.']) = true) (by
    rw [List.all_eq_true, Path.Straight]
    exact ⟨fun h hmem => absurd (h _ hmem) (by decide), fun h name hname =>
      bne_iff_ne.2 fun heq => h (heq ▸ hname)⟩)

namespace FileSystem

/-- the place a path names that never goes up -/
def named (here : Route) (p : Text) : Route := origin here p ++ Path.names p

variable {fs : FileSystem} {manner : Manner} {here r : Route} {p q : Text} {path rest : List Text}
  {node : Option Node}

theorem named_nil (here : Route) : named here [] = here := List.append_nil here

theorem origin_of_mem_ancestors (hq : q ∈ Path.ancestors p) (here : Route) :
    origin here q = origin here p := by
  obtain ⟨-, -, habsolute⟩ := Path.mem_ancestors hq
  rw [origin, origin, habsolute]

/-- what is above a path names a place above -/
theorem named_begins_of_mem_ancestors (hq : q ∈ Path.ancestors p) (here : Route) :
    named here q <+: named here p := by
  obtain ⟨-, hnames, -⟩ := Path.mem_ancestors hq
  rw [named, named, origin_of_mem_ancestors hq]
  exact (List.prefix_append_right_inj _).2 hnames

/-! ## Standing directories on the way -/

theorem Stands.above {above : Route} (h : fs.Stands r) (habove : above <+: r) : fs.Stands above where
  names name hname := h.names name (habove.subset hname)
  directories top htop := h.directories top (htop.trans habove)

theorem tooLong_of_isName {name : Text} (hname : Route.IsName name) (hmanner : manner ≠ .spelled)
    (here : Route) : tooLong manner (here ++ [name]) = false := by
  have hshort : ¬longestName < Utf8.size name := Nat.not_lt.2 hname.short
  cases manner <;> simp_all [tooLong]

/-- directories that stand are gone through by their names -/
theorem walk_down (hmanner : manner ≠ .spelled) (h : fs.Stands (here ++ path.filter (· != ['.'])))
    (rest : List Text) :
    fs.walk manner here (path ++ rest) = fs.walk manner (here ++ path.filter (· != ['.'])) rest := by
  induction path generalizing here with
  | nil => rw [List.nil_append, List.filter_nil, List.append_nil]
  | cons name path ih =>
    by_cases hdot : name = ['.']
    · subst hdot
      rw [List.filter_cons_of_neg (by simp)] at h ⊢
      rw [List.cons_append, walk, if_pos rfl, ih h]
    · rw [List.filter_cons_of_pos (by simpa using hdot), List.append_cons] at h ⊢
      have hname := h.names name (by simp)
      have hdirectory := h.directories (here ++ [name]) (List.prefix_append _ _)
      rw [List.cons_append, walk, if_neg hdot, if_neg hname.not_above, tooLong_of_isName hname hmanner,
        if_neg (by simp), hdirectory]
      exact ih h

theorem walkThrough_congr {here' : Route} {path' : List Text}
    (h : fs.walk manner here path = fs.walk manner here' path') (links : Nat) :
    fs.walkThrough manner links here path = fs.walkThrough manner links here' path' := by
  rw [walkThrough, h, walkThrough.eq_def fs manner links here' path']

/-- a path through directories that stand leads to the place it names -/
theorem place_of_stands (hmanner : manner ≠ .spelled) (hp : Sayable p)
    (h : fs.Stands (named here p)) :
    fs.place here manner p = .ok ⟨named here p, some .directory⟩ := by
  have hwalk : fs.walk manner (origin here p) (steps p) =
      .arrived ⟨named here p, some .directory⟩ := by
    rw [named, Path.names_eq] at h ⊢
    rw [steps_eq, walk_down hmanner h]
    split_ifs
    · rw [walk, if_pos rfl, walk]
    · rw [walk]
  rw [place_eq hp, walkThrough, hwalk]

/-- what leads somewhere can be said -/
theorem sayable_of_place {place : Place} (h : fs.place here manner p = .ok place) : Sayable p := by
  rw [FileSystem.place] at h
  split_ifs at h with hnul hempty hlong habsolute
  all_goals exact ⟨by simpa using hnul, by simpa using hempty, Nat.not_lt.1 hlong⟩

/-! ## Joined paths -/

theorem origin_join (hq : Path.isAbsolute q = false) (here : Route) (p : Text) :
    origin here (Path.join p q) = origin here p := by
  by_cases hp : p = []
  · subst hp
    rw [Path.join_nil_left, origin, origin, hq]
    rfl
  · rw [origin, origin, Path.isAbsolute_join hp hq]

theorem named_join (hq : Path.isAbsolute q = false) (here : Route) (p : Text) :
    named here (Path.join p q) = named here p ++ Path.names q := by
  rw [named, named, Path.names_join hq, origin_join hq, List.append_assoc]

theorem mem_join {c : Char} (hq : Path.isAbsolute q = false) (hc : c ≠ '/') (p : Text) :
    c ∈ Path.join p q ↔ c ∈ p ∨ c ∈ q := by
  rw [Path.join_relative hq]
  split_ifs <;> simp [hc]

theorem size_le_size_join (hq : Path.isAbsolute q = false) (p : Text) :
    Utf8.size q ≤ Utf8.size (Path.join p q) := by
  have hslash : Utf8.size ('/' :: q) = Utf8.sizeOf '/' + Utf8.size q := by simp [Utf8.size_eq_sum]
  rw [Path.join_relative hq]
  split_ifs <;> rw [Utf8.size_append] <;> omega

/-- behind directories that stand, a relative path is looked for from there -/
theorem place_join (hmanner : manner ≠ .spelled) (hp : '\x00' ∉ p) (h : fs.Stands (named here p))
    (hne : q ≠ []) (hq : Path.isAbsolute q = false)
    (hsize : Utf8.size (Path.join p q) ≤ longestPath) :
    fs.place here manner (Path.join p q) = fs.place (named here p) manner q := by
  have horigin : origin (named here p) q = named here p := by
    rw [origin, hq]
    rfl
  have hwalk : fs.walk manner (origin here (Path.join p q)) (steps (Path.join p q)) =
      fs.walk manner (origin (named here p) q) (steps q) := by
    rw [steps_join hne hq, origin_join hq, horigin]
    rw [named, Path.names_eq] at h ⊢
    exact walk_down hmanner h (steps q)
  by_cases hnul : '\x00' ∈ q
  · have hjoin : '\x00' ∈ Path.join p q := (mem_join hq (by decide) p).2 (.inr hnul)
    rw [place, if_pos (by simpa using hjoin), place, if_pos (by simpa using hnul)]
  · have hshort := (size_le_size_join hq p).trans hsize
    have hjoin : Sayable (Path.join p q) := by
      refine ⟨fun hmem => ?_, fun hnil => hne (Path.join_eq_nil_iff.1 hnil).2, hsize⟩
      exact ((mem_join hq (by decide) p).1 hmem).elim hp hnul
    rw [place_eq hjoin, place_eq ⟨hnul, hne, hshort⟩]
    exact walkThrough_congr hwalk mostLinks

/-- an absolute path is looked for from the root, wherever that is said -/
theorem place_absolute (hq : Path.isAbsolute q = true) (here there : Route) :
    fs.place here manner q = fs.place there manner q := by
  simp only [place, hq, if_true]

/-! ## File systems without links -/

/-- a walk that never goes up arrives behind the names it passes -/
theorem Passes.named (h : Passes fs manner here path r node) (hstraight : ['.', '.'] ∉ path) :
    r = here ++ path.filter (· != ['.']) := by
  induction h with
  | done => rw [List.filter_nil, List.append_nil]
  | stay _ ih =>
    rw [List.filter_cons_of_neg (by simp)]
    exact ih fun hmem => hstraight (List.mem_cons_of_mem _ hmem)
  | up _ _ => exact absurd List.mem_cons_self hstraight
  | enter hdot _ _ _ _ ih =>
    rw [List.filter_cons_of_pos (by simpa using hdot), List.append_cons]
    exact ih fun hmem => hstraight (List.mem_cons_of_mem _ hmem)
  | last hdot _ _ _ => rw [List.filter_cons_of_pos (by simpa using hdot), List.filter_nil]

theorem filter_steps (p : Text) : (steps p).filter (· != ['.']) = Path.names p := by
  rw [steps_eq, List.filter_append, ← Path.names_eq]
  split_ifs
  · exact List.append_nil _
  · exact List.append_nil _

/-- a path that never goes up leads nowhere but to the place it names -/
theorem Orderly.place_named (h : fs.Orderly here) (hp : Path.Straight p)
    (hplace : fs.place here manner p = .ok ⟨r, node⟩) : r = named here p := by
  obtain ⟨-, hpasses⟩ := passes_of_place h.linkFree hplace
  rw [hpasses.named, filter_steps, named]
  intro hmem
  refine hp ?_
  rw [← filter_steps]
  exact List.mem_filter.2 ⟨hmem, by decide⟩

/-- what is not a directory has a name, and its path ends with that -/
theorem Orderly.last_of_place (h : fs.Orderly here) (hplace : fs.place here manner p = .ok ⟨r, node⟩)
    (hnode : node ≠ some .directory) :
    ∃ name, r.getLast? = some name ∧ Route.IsName name ∧ (Path.pieces p).getLast? = some name ∧
      p.getLast? ≠ some '/' := by
  obtain ⟨-, hnames, hthere⟩ := h.place_spec hplace
  have hne : r ≠ [] := by
    rintro rfl
    exact hnode hthere.symm
  obtain ⟨above, name, rfl⟩ := (List.eq_nil_or_concat' r).resolve_left hne
  have hname := hnames name (by simp)
  obtain ⟨-, hpasses⟩ := passes_of_place h.linkFree hplace
  have hlast := hpasses.getLast? hnode
  rw [List.getLast?_concat, steps_eq] at hlast
  refine ⟨name, List.getLast?_concat, hname, ?_⟩
  split_ifs at hlast with hslash
  · rw [List.getLast?_concat, Option.some.injEq] at hlast
    exact absurd hlast hname.not_here
  · rw [List.append_nil] at hlast
    exact ⟨hlast.symm, by simpa using hslash⟩

/-- the path can be that of a file: it ends with a name, and never goes up -/
structure FilePath (p : Text) : Prop where
  sayable : Sayable p
  names : ∀ name ∈ Path.names p, Route.IsName name
  last : ∃ init name, Path.pieces p = init ++ [name] ∧ name ≠ ['.']
  no_slash : p.getLast? ≠ some '/'

theorem Orderly.filePath_of_place (h : fs.Orderly here) (hp : Path.Straight p)
    (hplace : fs.place here manner p = .ok ⟨r, node⟩) (hnode : node ≠ some .directory) :
    FilePath p := by
  obtain ⟨name, -, hname, hpieces, hslash⟩ := h.last_of_place hplace hnode
  obtain ⟨-, hnames, -⟩ := h.place_spec hplace
  obtain ⟨init, hinit⟩ := List.getLast?_eq_some_iff.1 hpieces
  refine ⟨sayable_of_place hplace, ?_, ⟨init, name, hinit, hname.not_here⟩, hslash⟩
  intro other hother
  rw [h.place_named hp hplace] at hnames
  exact hnames other (List.mem_append_right _ hother)

/-- behind standing directories, the path of a file leads to the place it names -/
theorem Orderly.place_filePath (h : fs.Orderly here) (hmanner : manner ≠ .spelled) (hp : FilePath p)
    (hstands : fs.Stands (named here p).dropLast) :
    fs.place here manner p = .ok ⟨named here p, fs.node? (named here p)⟩ := by
  obtain ⟨init, name, hpieces, hdot⟩ := hp.last
  have hnames : Path.names p = init.filter (· != ['.']) ++ [name] := by
    rw [Path.names_eq, hpieces, List.filter_append, List.filter_cons_of_pos (by simpa using hdot),
      List.filter_nil]
  have hplace : named here p = origin here p ++ init.filter (· != ['.']) ++ [name] := by
    rw [named, hnames, List.append_assoc]
  have hname := hp.names name (by rw [hnames]; simp)
  rw [hplace, List.dropLast_concat] at hstands
  have hsteps : steps p = init ++ [name] := by
    rw [steps_eq, hpieces, if_neg (by simpa using hp.no_slash), List.append_nil]
  have hpasses : Passes fs manner (origin here p ++ init.filter (· != ['.'])) [name] (named here p)
      (fs.node? (named here p)) := by
    have hshort := tooLong_of_isName hname hmanner (origin here p ++ init.filter (· != ['.']))
    rw [hplace]
    by_cases hnode : fs.node? (origin here p ++ init.filter (· != ['.']) ++ [name]) =
        some .directory
    · rw [hnode]
      exact .enter hdot hname.not_above hshort hnode .done
    · exact .last hdot hname.not_above hshort hnode
  rw [place_of_sayable h.linkFree hp.sayable, hsteps, walk_down hmanner hstands,
    walk_of_passes h.linkFree hpasses]

end FileSystem

end CodeCache
