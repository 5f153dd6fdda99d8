/-
What creating directories adds, in file systems without links.

Main result, `makeDirectories_opened`: whether or not the whole path could be created, what was
added are directories that beginnings of the path lead to, and nothing else changed.

One directory is created at a place that its path leads to afterwards, also when the path has slashes
at its end (`makeDirectory_spec`); a chain of them is an induction on the chain (`makeChain_opened`).
-/
import Mathlib.Data.List.DropRight
import CodeCache.Proofs.System.Writes

namespace CodeCache.FileSystem

variable {fs fs' fs'' : FileSystem} {manner : Manner} {here r : Route} {p : Text}
  {path chain : List Text} {n : Node}

/-! ## Slashes at the end of a path -/

theorem withoutSlashes_concat (p : Text) (c : Char) :
    withoutSlashes (p ++ [c]) = if c = '/' then withoutSlashes p else p ++ [c] := by
  split_ifs with hc
  · exact List.rdropWhile_concat_pos _ _ _ (by simp [hc])
  · exact List.rdropWhile_concat_neg _ _ _ (by simp [hc])

theorem withoutSlashes_begins (p : Text) : withoutSlashes p <+: p := List.rdropWhile_prefix _ p

theorem getLast?_withoutSlashes (p : Text) : (withoutSlashes p).getLast? ≠ some '/' := by
  induction p using List.reverseRecOn with
  | nil => simp [withoutSlashes, Text.trimEnd]
  | append_singleton p c ih =>
    rw [withoutSlashes_concat]
    split_ifs with hc
    · exact ih
    · simpa using hc

/-- slashes at the end add no name -/
theorem names_withoutSlashes (p : Text) :
    (Text.splitOn '/' (withoutSlashes p)).filter (· != []) =
      (Text.splitOn '/' p).filter (· != []) := by
  induction p using List.reverseRecOn with
  | nil => rfl
  | append_singleton p c ih =>
    rw [withoutSlashes_concat]
    split_ifs with hc
    · rw [ih, hc, Text.splitOn_eq, Text.splitOn_eq, List.splitOn_append_cons_self,
        List.filter_append, List.splitOn_nil, List.filter_cons_of_neg (by decide), List.filter_nil,
        List.append_nil]
    · rfl

/-- slashes at the end ask for a directory and mean nothing else -/
theorem steps_withoutSlashes (p : Text) :
    steps p = steps (withoutSlashes p) ++ if p.getLast? == some '/' then [['.']] else [] := by
  have hlast : steps (withoutSlashes p) =
      (Text.splitOn '/' (withoutSlashes p)).filter (· != []) := by
    rw [steps, if_neg (by simpa using getLast?_withoutSlashes p), List.append_nil]
  rw [hlast, names_withoutSlashes, steps]

theorem origin_withoutSlashes (h : withoutSlashes p ≠ []) (here : Route) :
    origin here (withoutSlashes p) = origin here p := by
  obtain ⟨c, cs, hcons⟩ := List.exists_cons_of_ne_nil h
  obtain ⟨slashes, hp⟩ := withoutSlashes_begins p
  have hhead : (withoutSlashes p).head? = p.head? := by
    rw [hcons] at hp ⊢
    rw [← hp]
    rfl
  rw [origin, origin, Path.isAbsolute, Path.isAbsolute, hhead]

theorem nul_not_mem_of_withoutSlashes (h : '\x00' ∉ withoutSlashes p) : '\x00' ∉ p := by
  induction p using List.reverseRecOn with
  | nil => exact List.not_mem_nil
  | append_singleton p c ih =>
    rw [withoutSlashes_concat] at h
    split_ifs at h with hc
    · intro hnul
      rcases List.mem_append.1 hnul with hnul | hnul
      · exact ih h hnul
      · rw [← List.mem_singleton.1 hnul] at hc
        exact absurd hc (by decide)
    · exact h

/-! ## Walks to directories -/

theorem Passes.through {node : Option Node} (h : Passes fs .upTo here path r node) :
    Passes fs .through here path r node := by
  have hsame : ∀ q, tooLong .upTo q = tooLong .through q := fun _ => rfl
  induction h with
  | done => exact .done
  | stay _ ih => exact .stay ih
  | up _ ih => exact .up ih
  | enter hdot hdots hshort hn _ ih => exact .enter hdot hdots (hsame _ ▸ hshort) hn ih
  | last hdot hdots hshort hn => exact .last hdot hdots (hsame _ ▸ hshort) hn

/-- a walk that ends at a directory can stay there -/
theorem Passes.staying {node : Option Node} (h : Passes fs manner here path r node)
    (hnode : node = some .directory) : Passes fs manner here (path ++ [['.']]) r node := by
  induction h with
  | done => exact .stay .done
  | stay _ ih => exact .stay (ih hnode)
  | up _ ih => exact .up (ih hnode)
  | enter hdot hdots hshort hn _ ih => exact .enter hdot hdots hshort hn (ih hnode)
  | last hdot hdots hshort hn => exact absurd hnode hn

/-! ## Finding -/

theorem find_of_place (h : fs.place here .through p = .ok ⟨r, some n⟩) :
    fs.find here p = .ok (r, n) := by
  rw [find, h]
  rfl

theorem place_of_find (h : fs.find here p = .ok (r, n)) :
    fs.place here .through p = .ok ⟨r, some n⟩ := by
  rw [find] at h
  cases hplace : fs.place here .through p with
  | error e => rw [hplace] at h; cases h
  | ok place =>
    obtain ⟨q, node⟩ := place
    rw [hplace] at h
    cases node with
    | none => cases h
    | some found => cases h; rfl

/-- a path that led to a directory still does -/
theorem Orderly.find_growth (h : fs.Orderly here) (hgrowth : Growth fs fs')
    (hfind : fs.find here p = .ok (r, .directory)) : fs'.find here p = .ok (r, .directory) := by
  have hplace := place_of_find hfind
  obtain ⟨-, -, hnode⟩ := h.place_spec hplace
  have hagain := h.place_growth hgrowth hplace
  rw [hgrowth.directories r hnode] at hagain
  exact find_of_place hagain

/-! ## Creating directories -/

/-- **One directory**: it was not there, and its path leads to it afterwards -/
theorem makeDirectory_spec (h : fs.Orderly here) (hmake : fs.makeDirectory here p = .ok fs') :
    ∃ r, r ≠ [] ∧ fs.node? r = none ∧ fs' = fs.put r .directory ∧
      fs'.find here p = .ok (r, .directory) := by
  have hgrowth := makeDirectory_growth h hmake
  unfold makeDirectory at hmake
  split_ifs at hmake with hlong hroot
  cases hplace : fs.place here .upTo (withoutSlashes p) with
  | error e => rw [hplace] at hmake; cases hmake
  | ok place =>
    obtain ⟨r, node⟩ := place
    rw [hplace] at hmake
    cases node with
    | some found => cases hmake
    | none =>
      cases hmake
      obtain ⟨-, -, hnode⟩ := h.place_spec hplace
      have hr : r ≠ [] := by
        rintro rfl
        cases hnode
      refine ⟨r, hr, hnode, rfl, ?_⟩
      obtain ⟨hsayable, hpasses⟩ := passes_of_place h.linkFree hplace
      -- the path itself can be said: its slashes were counted before they were taken away
      have hnul : '\x00' ∉ p := nul_not_mem_of_withoutSlashes hsayable.no_nul
      have hp : Sayable p := by
        refine ⟨hnul, ?_, ?_⟩
        · rintro rfl
          exact hsayable.nonempty rfl
        · have hshort : ¬(longestPath < Utf8.size p ∧ '\x00' ∉ p) := by
            simpa [isOverlong] using hlong
          exact Nat.not_lt.1 fun hlt => hshort ⟨hlt, hnul⟩
      have hthere : (fs.put r .directory).node? r = some .directory := by
        rw [node?_put hr, if_pos rfl]
      have hwalk := hpasses.keeping (h.stands.origin _) hsayable.steppable hgrowth.directories
      rw [hthere, origin_withoutSlashes hsayable.nonempty] at hwalk
      have hdirectory : Passes (fs.put r .directory) .through (origin here p) (steps p) r
          (some .directory) := by
        rw [steps_withoutSlashes]
        split_ifs
        · exact hwalk.through.staying rfl
        · rw [List.append_nil]
          exact hwalk.through
      exact find_of_place (place_of_passes (hgrowth.linkFree h.linkFree) hp hdirectory)

/-- what was added are directories that paths of the chain lead to -/
def Opened (fs fs' : FileSystem) (here : Route) (chain : List Text) : Prop :=
  ∀ r, fs'.node? r = fs.node? r ∨
    fs.node? r = none ∧ ∃ p ∈ chain, fs'.find here p = .ok (r, .directory)

theorem Opened.refl (fs : FileSystem) (here : Route) (chain : List Text) :
    Opened fs fs here chain := fun _ => .inl rfl

theorem Opened.cons (h : Opened fs fs' here chain) (p : Text) : Opened fs fs' here (p :: chain) := by
  intro r
  rcases h r with hsame | ⟨hnone, q, hq, hfind⟩
  · exact .inl hsame
  · exact .inr ⟨hnone, q, List.mem_cons_of_mem p hq, hfind⟩

theorem Opened.trans (hfs' : fs'.Orderly here) (h : Opened fs fs' here chain)
    (hgrowth : Growth fs' fs'') (h' : Opened fs' fs'' here chain) : Opened fs fs'' here chain := by
  intro r
  rcases h r with hsame | ⟨hnone, q, hq, hfind⟩
  · rcases h' r with hsame' | ⟨hnone', hfound⟩
    · exact .inl (hsame'.trans hsame)
    · exact .inr ⟨hsame.symm.trans hnone', hfound⟩
  · exact .inr ⟨hnone, q, hq, hfs'.find_growth hgrowth hfind⟩

theorem opened_makeDirectory (h : fs.Orderly here) (hmake : fs.makeDirectory here p = .ok fs')
    (parents : List Text) : Opened fs fs' here (p :: parents) := by
  obtain ⟨place, hplace, hnone, rfl, hfind⟩ := makeDirectory_spec h hmake
  intro r
  rw [node?_put hplace]
  split_ifs with hr
  · subst hr
    exact .inr ⟨hnone, p, List.mem_cons_self, hfind⟩
  · exact .inl rfl

/-- whatever becomes of a chain, each directory that was added is one of it -/
theorem makeChain_opened (h : fs.Orderly here) (chain : List Text) :
    Opened fs (fs.makeChain here chain).2 here chain := by
  induction chain with
  | nil => exact Opened.refl fs here []
  | cons p parents ih =>
    have hgrowth := makeChain_growth h parents
    rw [makeChain]
    by_cases hempty : p.isEmpty = true
    · rw [if_pos hempty]
      exact Opened.refl fs here _
    · rw [if_neg hempty]
      cases hmake : fs.makeDirectory here p with
      | ok made => exact opened_makeDirectory h hmake parents
      | error e =>
        by_cases he : e = .notFound
        · subst he
          rcases hparents : fs.makeChain here parents with ⟨result, above⟩
          rw [hparents] at ih hgrowth
          cases result with
          | error e => exact ih.cons p
          | ok =>
            dsimp only
            have habove := h.growth hgrowth
            cases hagain : above.makeDirectory here p with
            | ok made =>
              exact (ih.cons p).trans habove (makeDirectory_growth habove hagain)
                (opened_makeDirectory habove hagain parents)
            | error e => exact ih.cons p
        · cases e <;> first | exact absurd rfl he | exact Opened.refl fs here _

/-- **Directories created**: whatever became of it, all that was added are directories on the path -/
theorem makeDirectories_opened (h : fs.Orderly here) (p : Text) :
    Opened fs (fs.makeDirectories here p).2 here (Path.ancestors p) := makeChain_opened h _

end CodeCache.FileSystem
