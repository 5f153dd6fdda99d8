/-
What operations that create change at the places that paths name, in file systems without links.

For a path that never goes up, creating its directories makes the place it names and all above it
directories and changes nothing else (`makeDirectories_ok`), and a write changes the place it names
(`Orderly.write_filePath`). Both succeed wherever nothing is in the way. For the directories
(`makeDirectories_of_clear`) this needs one thing more: a path that ends with a `.` is not created
together with the directory it asks for, so that has to stand.
-/
import CodeCache.Proofs.System.Links

namespace CodeCache.FileSystem

variable {fs fs' : FileSystem} {manner : Manner} {here r : Route} {p q : Text} {path : List Text}

/-! ## What stays -/

/-- whatever was there still is, a directory exactly if it was one -/
def Keeps (fs fs' : FileSystem) : Prop :=
  ∀ r n, fs.node? r = some n → ∃ n', fs'.node? r = some n' ∧ (n' = .directory ↔ n = .directory)

theorem Keeps.refl (fs : FileSystem) : Keeps fs fs := fun _ n h => ⟨n, h, Iff.rfl⟩

theorem Keeps.trans {fs'' : FileSystem} (h : Keeps fs fs') (h' : Keeps fs' fs'') :
    Keeps fs fs'' := by
  intro r n hr
  obtain ⟨n', hr', hn'⟩ := h r n hr
  obtain ⟨n'', hr'', hn''⟩ := h' r n' hr'
  exact ⟨n'', hr'', hn''.trans hn'⟩

theorem Keeps.directory (h : Keeps fs fs') (hr : fs.node? r = some .directory) :
    fs'.node? r = some .directory := by
  obtain ⟨n', hr', hn'⟩ := h r .directory hr
  rw [hr', hn'.2 rfl]

/-- nothing but directories is at the place or above it -/
def Clear (fs : FileSystem) (r : Route) : Prop :=
  ∀ above, above <+: r → fs.node? above = some .directory ∨ fs.node? above = none

/-- what is clear was clear when there was less -/
theorem Keeps.clear (h : Keeps fs fs') (hclear : fs'.Clear r) : fs.Clear r := by
  intro above habove
  cases hnode : fs.node? above with
  | none => exact .inr rfl
  | some n =>
    obtain ⟨n', hnode', hn'⟩ := h above n hnode
    rcases hclear above habove with hdirectory | hnone
    · rw [hdirectory, Option.some.injEq] at hnode'
      rw [hn'.1 hnode'.symm]
      exact .inl rfl
    · rw [hnone] at hnode'
      cases hnode'

/-! ## Directories made -/

/-- `fs'` has a directory and those above it, and is `fs` everywhere else -/
structure Opens (fs fs' : FileSystem) (r : Route) : Prop where
  stands : fs'.Stands r
  /-- only what was missing was made -/
  clear : fs.Clear r
  others : ∀ q, ¬q <+: r → fs'.node? q = fs.node? q

/-- a directory that was found stands -/
theorem Orderly.stands_of_find (h : fs.Orderly here) (hp : Path.Straight p)
    (hfind : fs.find here p = .ok (r, .directory)) : fs.Stands (named here p) := by
  have hplace := place_of_find hfind
  obtain ⟨habove, hnames, hnode⟩ := h.place_spec hplace
  rw [← h.place_named hp hplace]
  rcases List.eq_nil_or_concat' r with rfl | ⟨above, name, rfl⟩
  · exact fs.stands_root
  · rw [List.dropLast_concat] at habove
    exact habove.enter (hnames name (by simp)) hnode

theorem exists_find_of_isDirectory (h : fs.isDirectory here p = true) :
    ∃ r, fs.find here p = .ok (r, .directory) := by
  unfold FileSystem.isDirectory at h
  split at h
  · next r hfind => exact ⟨r, hfind⟩
  · cases h

/-- a chain of directories that was created leads to its first -/
theorem find_of_makeChain {parents : List Text} (h : fs.Orderly here)
    (hmake : fs.makeChain here (p :: parents) = (.ok (), fs')) :
    p = [] ∨ ∃ r, fs'.find here p = .ok (r, .directory) := by
  have hlate : ∀ {files : FileSystem} {e : OsError},
      ((if files.isDirectory here p then .ok () else .error e : Except OsError Unit), files) =
        (.ok (), fs') → ∃ r, fs'.find here p = .ok (r, .directory) := by
    intro files e heq
    split_ifs at heq with hfound
    · cases heq
      exact exists_find_of_isDirectory hfound
    · cases heq
  rw [makeChain] at hmake
  by_cases hempty : p.isEmpty = true
  · exact .inl (List.isEmpty_iff.1 hempty)
  · rw [if_neg hempty] at hmake
    right
    cases hfirst : fs.makeDirectory here p with
    | ok made =>
      rw [hfirst] at hmake
      cases hmake
      obtain ⟨r, -, -, -, hfind⟩ := makeDirectory_spec h hfirst
      exact ⟨r, hfind⟩
    | error e =>
      by_cases he : e = .notFound
      · subst he
        rw [hfirst] at hmake
        have hgrowth := makeChain_growth h parents
        rcases hparents : fs.makeChain here parents with ⟨result, above⟩
        rw [hparents] at hmake hgrowth
        cases result with
        | error e => cases hmake
        | ok =>
          dsimp only at hmake
          cases hagain : above.makeDirectory here p with
          | ok made =>
            rw [hagain] at hmake
            cases hmake
            obtain ⟨r, -, -, -, hfind⟩ := makeDirectory_spec (h.growth hgrowth) hagain
            exact ⟨r, hfind⟩
          | error e =>
            rw [hagain] at hmake
            exact hlate hmake
      · rw [hfirst] at hmake
        cases e <;> first | exact absurd rfl he | exact hlate hmake

theorem exists_ancestors (p : Text) : ∃ parents, Path.ancestors p = p :: parents := by
  cases hparent : Path.parent? p with
  | none => exact ⟨[], Path.ancestors_of_none hparent⟩
  | some q => exact ⟨_, Path.ancestors_of_parent hparent⟩

/-- **Directories created**: the place the path names stands, and nothing else has changed -/
theorem makeDirectories_ok (h : fs.Orderly here) (hp : Path.Straight p)
    (hmake : fs.makeDirectories here p = (.ok (), fs')) : Opens fs fs' (named here p) := by
  have hgrowth := makeDirectories_growth h p
  have hopened := makeDirectories_opened h p
  rw [hmake] at hgrowth hopened
  have horderly : fs'.Orderly here := h.growth hgrowth
  have hstands : fs'.Stands (named here p) := by
    obtain ⟨parents, hparents⟩ := exists_ancestors p
    rw [makeDirectories, hparents] at hmake
    rcases find_of_makeChain h hmake with rfl | ⟨r, hfind⟩
    · rw [named_nil]
      exact horderly.stands
    · exact horderly.stands_of_find hp hfind
  refine ⟨hstands, ?_, ?_⟩
  · intro above habove
    rcases hopened above with hsame | ⟨hnone, -⟩
    · exact .inl (hsame.symm.trans (hstands.directories above habove))
    · exact .inr hnone
  · intro q hq
    rcases hopened q with hsame | ⟨-, q', hmem, hfind⟩
    · exact hsame
    · obtain ⟨-, hnames, -⟩ := Path.mem_ancestors hmem
      have hstraight : Path.Straight q' := fun hdots => hp (hnames.subset hdots)
      have hbegins := named_begins_of_mem_ancestors hmem here
      rw [← horderly.place_named hstraight (place_of_find hfind)] at hbegins
      exact absurd hbegins hq

/-! ## Directories that can be made -/

theorem Sayable.begins (hp : Sayable p) (hq : q <+: p) (hne : q ≠ []) : Sayable q := by
  obtain ⟨rest, rfl⟩ := hq
  refine ⟨fun hnul => hp.no_nul (List.mem_append_left _ hnul), hne, ?_⟩
  have hsize := hp.short
  rw [Utf8.size_append] at hsize
  omega

theorem named_withoutSlashes (h : withoutSlashes p ≠ []) (here : Route) :
    named here (withoutSlashes p) = named here p := by
  have hpieces : Path.pieces (withoutSlashes p) = Path.pieces p := names_withoutSlashes p
  rw [named, named, origin_withoutSlashes h, Path.names_eq, Path.names_eq, hpieces]

/-- the directory was made, or there was one -/
def Provides (fs : FileSystem) (here : Route) (p : Text) : Prop :=
  (∃ fs', fs.makeDirectory here p = .ok fs') ∨
    fs.makeDirectory here p = .error .alreadyExists ∧ fs.isDirectory here p = true

/-- a directory that stands is there already -/
theorem makeDirectory_of_stands (hp : Sayable p) (hstands : fs.Stands (named here p)) :
    fs.makeDirectory here p = .error .alreadyExists ∧ fs.isDirectory here p = true := by
  constructor
  · rw [makeDirectory, isOverlong_of_sayable hp]
    by_cases hroot : withoutSlashes p = []
    · simp [hroot, hp.nonempty]
    · have hplace : fs.place here .upTo (withoutSlashes p) = .ok ⟨named here p, some .directory⟩ := by
        rw [← named_withoutSlashes hroot] at hstands ⊢
        exact place_of_stands (by decide) (hp.begins (withoutSlashes_begins p) hroot) hstands
      simp [hroot, hplace]
  · rw [FileSystem.isDirectory, find_of_place (place_of_stands (by decide) hp hstands)]

/-- a directory in a standing one can be made, or is there already -/
theorem Orderly.makeDirectory_of_clear (h : fs.Orderly here) (hp : Sayable p)
    (hlast : FilePath (withoutSlashes p)) (hstands : fs.Stands (named here p).dropLast)
    (hclear : fs.Clear (named here p)) : fs.Provides here p := by
  have hnamed := named_withoutSlashes hlast.sayable.nonempty here
  have hplace : fs.place here .upTo (withoutSlashes p) =
      .ok ⟨named here p, fs.node? (named here p)⟩ := by
    rw [← hnamed] at hstands ⊢
    exact h.place_filePath (by decide) hlast hstands
  rcases hclear _ (List.prefix_refl _) with hnode | hnode
  · obtain ⟨-, hnames, -⟩ := h.place_spec hplace
    refine .inr (makeDirectory_of_stands hp ?_)
    rcases List.eq_nil_or_concat' (named here p) with hnil | ⟨above, name, hconcat⟩
    · rw [hnil]
      exact fs.stands_root
    · rw [hconcat, List.dropLast_concat] at hstands
      rw [hconcat] at hnames hnode ⊢
      exact hstands.enter (hnames name (by simp)) hnode
  · left
    rw [makeDirectory, isOverlong_of_sayable hp, if_neg (by simp),
      if_neg (by simpa using fun _ => hlast.sayable.nonempty), hplace, hnode]
    exact ⟨_, rfl⟩

/-- a walk that meets nothing but directories ends at the first that is missing -/
theorem walk_of_missing (hlink : fs.LinkFree) (hmanner : manner ≠ .spelled) (hhere : fs.Stands here)
    (hnames : ∀ name ∈ path.filter (· != ['.']), Route.IsName name)
    (hclear : fs.Clear (here ++ path.filter (· != ['.'])))
    (hmissing : ¬fs.Stands (here ++ path.filter (· != ['.'])).dropLast) :
    fs.walk manner here path = .failed .notFound := by
  induction path generalizing here with
  | nil =>
    rw [List.filter_nil, List.append_nil] at hmissing
    exact absurd hhere.dropLast hmissing
  | cons name rest ih =>
    rw [walk_cons hlink]
    by_cases hdot : name = ['.']
    · subst hdot
      rw [List.filter_cons_of_neg (by simp)] at hnames hclear hmissing
      rw [if_pos rfl]
      exact ih hhere hnames hclear hmissing
    · rw [List.filter_cons_of_pos (by simpa using hdot)] at hnames hclear hmissing
      have hname := hnames name List.mem_cons_self
      rw [if_neg hdot, if_neg hname.not_above, tooLong_of_isName hname hmanner, if_neg (by simp)]
      rw [List.append_cons] at hclear hmissing
      rcases hclear (here ++ [name]) (List.prefix_append _ _) with hnode | hnode
      · rw [if_pos hnode]
        exact ih (hhere.enter hname hnode) (fun other hother =>
          hnames other (List.mem_cons_of_mem _ hother)) hclear hmissing
      · rw [hnode, if_neg (by simp)]
        by_cases hrest : rest = []
        · subst hrest
          rw [List.filter_nil, List.append_nil, List.dropLast_concat] at hmissing
          exact absurd hhere hmissing
        · rw [if_neg hrest]
          rfl

/-- a directory in a missing one cannot be made yet -/
theorem Orderly.makeDirectory_of_missing (h : fs.Orderly here) (hp : Sayable p)
    (hlast : FilePath (withoutSlashes p)) (hclear : fs.Clear (named here p))
    (hmissing : ¬fs.Stands (named here p).dropLast) :
    fs.makeDirectory here p = .error .notFound := by
  have hnamed := named_withoutSlashes hlast.sayable.nonempty here
  have hwalk : fs.walk .upTo (origin here (withoutSlashes p)) (steps (withoutSlashes p)) =
      .failed .notFound := by
    rw [← hnamed, named, ← filter_steps] at hclear hmissing
    refine walk_of_missing h.linkFree (by decide) (h.stands.origin _) ?_ hclear hmissing
    rw [filter_steps]
    exact hlast.names
  have hplace : fs.place here .upTo (withoutSlashes p) = .error .notFound := by
    rw [place_of_sayable h.linkFree hlast.sayable, hwalk]
  rw [makeDirectory, isOverlong_of_sayable hp, if_neg (by simp),
    if_neg (by simpa using fun _ => hlast.sayable.nonempty), hplace]

theorem straight_of_isName (hnames : ∀ name ∈ Path.names p, Route.IsName name) : Path.Straight p :=
  fun hmem => (hnames _ hmem).not_above rfl

theorem filePath_withoutSlashes (hp : Sayable p) (hnames : ∀ name ∈ Path.names p, Route.IsName name)
    (hne : Path.names p ≠ []) (hends : Path.endsHere p = false) : FilePath (withoutSlashes p) := by
  have hpieces : Path.pieces (withoutSlashes p) = Path.pieces p := names_withoutSlashes p
  have hsame : Path.names (withoutSlashes p) = Path.names p := by
    rw [Path.names_eq, Path.names_eq, hpieces]
  have hroot : withoutSlashes p ≠ [] := by
    intro hnil
    rw [hnil] at hsame
    exact hne hsame.symm
  refine ⟨hp.begins (withoutSlashes_begins p) hroot, hsame ▸ hnames, ?_, getLast?_withoutSlashes p⟩
  rcases List.eq_nil_or_concat' (Path.pieces p) with hnil | ⟨init, name, hconcat⟩
  · rw [Path.names_eq, hnil] at hne
    exact absurd rfl hne
  · refine ⟨init, name, hpieces.trans hconcat, ?_⟩
    rintro rfl
    rw [Path.endsHere, hconcat, List.getLast?_concat] at hends
    cases hends

/-- the place of the parent is the one above -/
theorem named_parent? (h : Path.parent? p = some q) (hne : Path.names p ≠ []) (here : Route) :
    named here q = (named here p).dropLast := by
  obtain ⟨-, -, hnames, habsolute, -⟩ := Path.parent?_spec h
  rw [named, named, hnames, List.dropLast_append_of_ne_nil hne, origin, origin, habsolute]

theorem makeChain_of_provides (hp : p ≠ []) (parents : List Text) (h : fs.Provides here p) :
    ∃ fs', fs.makeChain here (p :: parents) = (.ok (), fs') := by
  rcases h with ⟨made, hmade⟩ | ⟨hthere, hfound⟩
  · exact ⟨made, by simp [makeChain, hp, hmade]⟩
  · exact ⟨fs, by simp [makeChain, hp, hthere, hfound]⟩

theorem makeChain_of_missing {above : FileSystem} {parents : List Text} (hp : p ≠ [])
    (hmissing : fs.makeDirectory here p = .error .notFound)
    (hparents : fs.makeChain here parents = (.ok (), above)) (h : above.Provides here p) :
    ∃ fs', fs.makeChain here (p :: parents) = (.ok (), fs') := by
  rcases h with ⟨made, hmade⟩ | ⟨hthere, hfound⟩
  · exact ⟨made, by simp [makeChain, hp, hmissing, hparents, hmade]⟩
  · exact ⟨above, by simp [makeChain, hp, hmissing, hparents, hthere, hfound]⟩

/-- a directory in a missing one can be made once that and those above it are -/
theorem Orderly.makeDirectories_of_parent (h : fs.Orderly here) (hp : Sayable p)
    (hnames : ∀ name ∈ Path.names p, Route.IsName name) (hlast : FilePath (withoutSlashes p))
    (hclear : fs.Clear (named here p)) (hmissing : ¬fs.Stands (named here p).dropLast)
    (hq : Path.parent? p = some q) (hne : Path.names p ≠ [])
    (hmade : fs.makeDirectories here q = (.ok (), fs')) :
    ∃ fs'', fs.makeDirectories here p = (.ok (), fs'') := by
  have hplace := named_parent? hq hne here
  have hstraight : Path.Straight q := by
    obtain ⟨-, -, hqnames, -, -⟩ := Path.parent?_spec hq
    rw [Path.Straight, hqnames]
    exact fun hmem => straight_of_isName hnames (List.mem_of_mem_dropLast hmem)
  have hopens := makeDirectories_ok h hstraight hmade
  have horderly : fs'.Orderly here := by
    have hgrowth := makeDirectories_growth h q
    rw [hmade] at hgrowth
    exact h.growth hgrowth
  -- what was made is all above the directory, so that is still clear
  have hclear' : fs'.Clear (named here p) := by
    intro above habove
    by_cases hbelow : above <+: named here q
    · exact .inl (hopens.stands.directories above hbelow)
    · rw [hopens.others above hbelow]
      exact hclear above habove
  have hprovides : fs'.Provides here p :=
    horderly.makeDirectory_of_clear hp hlast (hplace ▸ hopens.stands) hclear'
  rw [makeDirectories, Path.ancestors_of_parent hq]
  exact makeChain_of_missing hp.nonempty (h.makeDirectory_of_missing hp hlast hclear hmissing) hmade
    hprovides

/-- **Directories that can be created**: there are only directories at the place the path names and
above it, and the directory stands that a `.` at the end is looked up in -/
theorem makeDirectories_of_clear (h : fs.Orderly here) (hp : p = [] ∨ Sayable p)
    (hnames : ∀ name ∈ Path.names p, Route.IsName name) (hclear : fs.Clear (named here p))
    (hends : Path.endsHere p = true → fs.Stands (named here p)) :
    ∃ fs', fs.makeDirectories here p = (.ok (), fs') := by
  induction p using Path.parent_induction with
  | step p ih =>
    by_cases hempty : p = []
    · subst hempty
      exact ⟨fs, rfl⟩
    have hp : Sayable p := hp.resolve_left hempty
    obtain ⟨parents, hparents⟩ := exists_ancestors p
    by_cases hstands : fs.Stands (named here p)
    · rw [makeDirectories, hparents]
      exact makeChain_of_provides hempty parents (.inr (makeDirectory_of_stands hp hstands))
    have hnonempty : Path.names p ≠ [] := by
      intro hnil
      rw [named, hnil, List.append_nil] at hstands
      exact hstands (h.stands.origin p)
    have hlast : FilePath (withoutSlashes p) :=
      filePath_withoutSlashes hp hnames hnonempty (by simpa using fun hdot => hstands (hends hdot))
    by_cases habove : fs.Stands (named here p).dropLast
    · rw [makeDirectories, hparents]
      exact makeChain_of_provides hempty parents (h.makeDirectory_of_clear hp hlast habove hclear)
    -- the directory above is missing: it is made first
    obtain ⟨q, hq⟩ := Path.exists_parent? hnonempty
    obtain ⟨hbegins, -, hqnames, -, hqends⟩ := Path.parent?_spec hq
    have hplace := named_parent? hq hnonempty here
    obtain ⟨above, hmade⟩ := ih q hq (or_iff_not_imp_left.2 (hp.begins hbegins))
      (fun name hname => hnames name (List.mem_of_mem_dropLast (hqnames ▸ hname)))
      (fun top htop => hclear top (htop.trans (hplace ▸ List.dropLast_prefix _)))
      (fun hdot => by
        rw [named, hqends hdot, List.append_nil]
        exact h.stands.origin q)
    exact h.makeDirectories_of_parent hp hnames hlast hclear habove hq hnonempty hmade

/-! ## Files written -/

/-- **A write** to the path of a file, in a directory that stands, changes the place it names -/
theorem Orderly.write_filePath (h : fs.Orderly here) (hp : FilePath p)
    (hstands : fs.Stands (named here p).dropLast)
    (hnode : fs.node? (named here p) ≠ some .directory) (content : Bytes) :
    fs.write here p content =
      .ok (fs.put (named here p) (.file content (mayExecute (fs.node? (named here p))) none)) :=
  Lands.write ⟨h.place_filePath (by decide) hp hstands, hnode⟩ content

/-- what a write needs, if its path never goes up -/
theorem Orderly.filePath_of_write {content : Bytes} (h : fs.Orderly here) (hp : Path.Straight p)
    (hwrite : fs.write here p content = .ok fs') :
    FilePath p ∧ fs.Stands (named here p).dropLast ∧ fs.node? (named here p) ≠ some .directory := by
  obtain ⟨r, node, executable, hplace, hnode, -⟩ := write_spec hwrite
  obtain ⟨hstands, -, hthere⟩ := h.place_spec hplace
  obtain rfl := h.place_named hp hplace
  exact ⟨h.filePath_of_place hp hplace hnode, hstands, hthere ▸ hnode⟩

end CodeCache.FileSystem
