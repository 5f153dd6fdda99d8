/-
File systems in which whatever there is is in a directory.

A list of nodes may hold a file in a directory that is not there (`FileSystem.Grounded` rules this
out). All that a compile does to the files is to create nodes in directories that stand, so it leaves
a tree what it is, whatever becomes of the compile. Main result, `compileFiles_isTree`: this holds of
a whole build.
-/
import CodeCache.Proofs.Compile.Stages

namespace CodeCache

namespace FileSystem

/-- whatever there is is in a directory -/
def Grounded (fs : FileSystem) : Prop :=
  ∀ r name, fs.node? (r ++ [name]) ≠ none → fs.node? r = some .directory

variable {fs : FileSystem} {here r : Route} {n : Node}

theorem grounded_of_nodes (h : ∀ entry ∈ fs.nodes, fs.node? entry.1.dropLast = some .directory) :
    fs.Grounded := by
  intro r name hnode
  rw [node?, if_neg (by simp)] at hnode
  obtain ⟨n, hn⟩ := Option.ne_none_iff_exists'.1 hnode
  obtain ⟨before, after, hnodes, -⟩ := List.lookup_eq_some_iff.1 hn
  have habove := h (r ++ [name], n) (by rw [hnodes]; simp)
  rwa [List.dropLast_concat] at habove

theorem Grounded.stands (h : fs.Grounded) (hnames : ∀ name ∈ r, Route.IsName name)
    (hr : fs.node? r = some .directory) : fs.Stands r := by
  induction r using List.reverseRecOn with
  | nil => exact fs.stands_root
  | append_singleton above name ih =>
    have habove := h above name (by simp [hr])
    exact (ih (fun other hother => hnames other (List.mem_append_left _ hother)) habove).enter
      (hnames name (by simp)) hr

theorem Grounded.stands_above (h : fs.Grounded) (hnames : ∀ name ∈ r, Route.IsName name)
    (hr : fs.node? r ≠ none) : fs.Stands r.dropLast := by
  rcases List.eq_nil_or_concat' r with rfl | ⟨above, name, rfl⟩
  · exact fs.stands_root
  · rw [List.dropLast_concat]
    exact h.stands (fun other hother => hnames other (List.mem_append_left _ hother))
      (h above name hr)

/-- a node is put into a directory, and not over one -/
theorem Grounded.put (h : fs.Grounded) (hr : r ≠ []) (habove : fs.node? r.dropLast = some .directory)
    (hfree : fs.node? r ≠ some .directory) (n : Node) : (fs.put r n).Grounded := by
  intro q name hnode
  rw [node?_put hr] at hnode ⊢
  have hq : fs.node? q = some .directory := by
    split_ifs at hnode with hplace
    · rwa [← hplace, List.dropLast_concat] at habove
    · exact h q name hnode
  rw [if_neg]
  · exact hq
  · rintro rfl
    exact hfree hq

/-- what was created for a directory is in directories -/
theorem Grounded.makeDirectories (h : fs.Grounded) (horderly : fs.Orderly here) (p : Text) :
    (fs.makeDirectories here p).2.Grounded := by
  have hgrowth := makeDirectories_growth horderly p
  intro r name hnode
  rcases makeDirectories_opened horderly p (r ++ [name]) with hsame | ⟨-, q, -, hfind⟩
  · rw [hsame] at hnode
    exact hgrowth.directories r (h r name hnode)
  · obtain ⟨habove, -, -⟩ := (horderly.growth hgrowth).place_spec (place_of_find hfind)
    rw [List.dropLast_concat] at habove
    exact habove.isDirectory

end FileSystem

/-! ## Machines -/

namespace Machine

variable {m m' : Machine}

/-- the files are a tree without links, and the working directory is in it -/
structure IsTree (m : Machine) : Prop where
  orderly : m.files.Orderly m.directory
  grounded : m.files.Grounded

theorem IsTree.write (h : m.IsTree) (p : Text) (content : Bytes) : (m.write p content).2.IsTree := by
  rcases hwrite : m.write p content with ⟨_ | _, m'⟩
  · obtain rfl := write_of_error hwrite
    exact h
  · obtain ⟨r, node, executable, hplace, hnode, hr, hgrowth, rfl⟩ := write_spec h.orderly hwrite
    obtain ⟨habove, -, hthere⟩ := h.orderly.place_spec hplace
    exact ⟨h.orderly.growth hgrowth,
      h.grounded.put hr habove.isDirectory (hthere ▸ hnode) _⟩

theorem IsTree.makeDirectories (h : m.IsTree) (p : Text) : (m.makeDirectories p).2.IsTree :=
  ⟨h.orderly.growth (FileSystem.makeDirectories_growth h.orderly p),
    h.grounded.makeDirectories h.orderly p⟩

end Machine

/-! ## Compiles -/

namespace Toolchain

variable {σ : Type} {m : Machine}

theorem writeLoader_isTree (T : Toolchain σ) (o : Options) (h : m.IsTree) :
    (T.writeLoader o m).2.IsTree := by
  rw [writeLoader_eq]
  simp only [Loader.write_eq]
  split_ifs
  · cases Loader.render o.extension T.layouts with
    | error e => exact h
    | ok script =>
      have hwritten := h.write (Path.join o.output o.loaderName) (Utf8.encode script)
      dsimp only
      rcases hwrite : m.write (Path.join o.output o.loaderName) (Utf8.encode script) with
        ⟨_ | _, m'⟩
      all_goals
        rw [hwrite] at hwritten
        exact hwritten
  · exact h

theorem writeOutputs_isTree (T : Toolchain σ) (o : Options) (cache : Bytes) (h : m.IsTree) :
    (T.writeOutputs o cache m).2.IsTree := by
  have hmade := h.makeDirectories o.output
  rw [writeOutputs_eq]
  rcases hmake : m.makeDirectories o.output with ⟨_ | _, m₁⟩
  all_goals rw [hmake] at hmade
  · exact hmade
  · have hwritten := hmade.write o.cachePath cache
    dsimp only at hwritten ⊢
    rcases hwrite : m₁.write o.cachePath cache with ⟨_ | _, m₂⟩
    all_goals rw [hwrite] at hwritten
    · exact hwritten
    · exact T.writeLoader_isTree o hwritten

/-- **A compile leaves a tree**, whether it succeeds or fails -/
theorem compileFile_isTree (T : Toolchain σ) (o : Options) (s : σ) (h : m.IsTree) :
    (T.compileFile o m s).2.1.IsTree := by
  rw [compileFile_eq]
  cases m.readSource o.filename with
  | error e => exact h
  | ok text =>
    dsimp only
    rcases hcompile : T.compileSource o (Source.prepare o.asModule text) m s with
      ⟨compiled, m₁, s₁⟩
    obtain ⟨hfiles, hdirectory⟩ := files_of_compileSource hcompile
    have hm₁ : m₁.IsTree :=
      ⟨by rw [hfiles, hdirectory]; exact h.orderly, by rw [hfiles]; exact h.grounded⟩
    cases compiled with
    | error e => exact hm₁
    | ok cache =>
      have hwritten := T.writeOutputs_isTree o cache hm₁
      dsimp only
      rcases hwrite : T.writeOutputs o cache m₁ with ⟨_ | _, m₂⟩
      all_goals
        rw [hwrite] at hwritten
        exact hwritten

/-- **A build leaves a tree**, however far it comes -/
theorem compileFiles_isTree (T : Toolchain σ) (s : σ) (h : m.IsTree) (options : List Options) :
    (T.compileFiles m s options).2.1.IsTree := by
  induction options generalizing m s with
  | nil => exact h
  | cons o rest ih =>
    have hfile := T.compileFile_isTree o s h
    unfold compileFiles
    rcases hfirst : T.compileFile o m s with ⟨_ | report, m₁, s₁⟩
    all_goals rw [hfirst] at hfile
    · exact hfile
    · have hrest := ih s₁ hfile
      dsimp only at hrest ⊢
      rcases hlater : T.compileFiles m₁ s₁ rest with ⟨_ | _, m₂, s₂⟩
      all_goals
        rw [hlater] at hrest
        exact hrest

end Toolchain

end CodeCache
