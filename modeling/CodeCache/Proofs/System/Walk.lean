/-
Walks in file systems without links.

`Passes` says what a walk does there: it stays, goes up, enters directories, and may end at anything
else by its last step. All that is proved of walks is an induction on it.
- `passes_of_walk`, `walk_of_passes`: it is the walk of the file system.
- `Passes.arrival`: a walk from a directory that stands arrives at a node in such a directory.
- `Passes.keeping`: a walk goes the same way as long as no directory goes away.
- `Passes.spelled`: looking every place up by its absolute path makes no difference but for places
  whose path is too long; `Passes.spelled_of_extent` bounds these.
- `passes_absolute`: the absolute path of a place leads to it.
-/
import CodeCache.Proofs.System.PathTexts

namespace CodeCache.FileSystem

/-- no place holds a symbolic link -/
def LinkFree (fs : FileSystem) : Prop := ∀ r target, fs.node? r ≠ some (.link target)

/-- the place is a directory, and so is every place above it -/
structure Stands (fs : FileSystem) (r : Route) : Prop where
  names : ∀ name ∈ r, Route.IsName name
  directories : ∀ above, above <+: r → fs.node? above = some .directory

theorem stands_iff_inits {fs : FileSystem} {r : Route} :
    fs.Stands r ↔
      (∀ name ∈ r, Route.IsName name) ∧ ∀ above ∈ r.inits, fs.node? above = some .directory :=
  ⟨fun h => ⟨h.names, fun above habove => h.directories above ((List.mem_inits _ _).1 habove)⟩,
    fun h => ⟨h.1, fun above habove => h.2 above ((List.mem_inits _ _).2 habove)⟩⟩

instance (fs : FileSystem) (r : Route) : Decidable (fs.Stands r) :=
  decidable_of_iff' _ stands_iff_inits

/-- a walk from a directory, through these steps, to a place and what is there -/
inductive Passes (fs : FileSystem) (manner : Manner) :
    Route → List Text → Route → Option Node → Prop where
  | done {here} : Passes fs manner here [] here (some .directory)
  | stay {here rest r node} :
    Passes fs manner here rest r node → Passes fs manner here (['.'] :: rest) r node
  | up {here rest r node} :
    Passes fs manner here.dropLast rest r node → Passes fs manner here (['.', '.'] :: rest) r node
  | enter {here name rest r node} :
    name ≠ ['.'] → name ≠ ['.', '.'] → tooLong manner (here ++ [name]) = false →
    fs.node? (here ++ [name]) = some .directory →
    Passes fs manner (here ++ [name]) rest r node → Passes fs manner here (name :: rest) r node
  | last {here name} :
    name ≠ ['.'] → name ≠ ['.', '.'] → tooLong manner (here ++ [name]) = false →
    fs.node? (here ++ [name]) ≠ some .directory →
    Passes fs manner here [name] (here ++ [name]) (fs.node? (here ++ [name]))

variable {fs fs' : FileSystem} {manner : Manner} {here r : Route} {path : List Text}
  {node : Option Node}

/-! ## Walks -/

/-- one step: without links there is nothing to be followed -/
theorem walk_cons (hlink : fs.LinkFree) (manner : Manner) (here : Route) (name : Text)
    (rest : List Text) :
    fs.walk manner here (name :: rest) =
      if name = ['.'] then fs.walk manner here rest
      else if name = ['.', '.'] then fs.walk manner here.dropLast rest
      else if tooLong manner (here ++ [name]) then .failed .nameTooLong
      else if fs.node? (here ++ [name]) = some .directory then fs.walk manner (here ++ [name]) rest
      else if rest = [] then .arrived ⟨here ++ [name], fs.node? (here ++ [name])⟩
      else .failed (if (fs.node? (here ++ [name])).isSome then .notADirectory else .notFound) := by
  rw [walk]
  refine if_congr Iff.rfl rfl (if_congr Iff.rfl rfl (if_congr Iff.rfl rfl ?_))
  cases hn : fs.node? (here ++ [name]) with
  | none => simp
  | some found =>
    cases found with
    | directory => simp
    | link target => exact absurd hn (hlink _ target)
    | file content executable program => simp

theorem passes_of_walk (hlink : fs.LinkFree) (h : fs.walk manner here path = .arrived ⟨r, node⟩) :
    Passes fs manner here path r node := by
  induction path generalizing here with
  | nil =>
    cases h
    exact .done
  | cons name rest ih =>
    rw [walk_cons hlink] at h
    split_ifs at h with hdot hdots hlong hn hrest
    · exact hdot ▸ .stay (ih h)
    · exact hdots ▸ .up (ih h)
    · exact .enter hdot hdots (by simpa using hlong) hn (ih h)
    · subst hrest
      cases h
      exact .last hdot hdots (by simpa using hlong) hn

theorem walk_of_passes (hlink : fs.LinkFree) (h : Passes fs manner here path r node) :
    fs.walk manner here path = .arrived ⟨r, node⟩ := by
  induction h with
  | done => rfl
  | stay _ ih => rw [walk_cons hlink, if_pos rfl, ih]
  | up _ ih => rw [walk_cons hlink, if_neg (by decide), if_pos rfl, ih]
  | enter hdot hdots hshort hn _ ih =>
    rw [walk_cons hlink, if_neg hdot, if_neg hdots, if_neg (by simp [hshort]), if_pos hn, ih]
  | last hdot hdots hshort hn =>
    rw [walk_cons hlink, if_neg hdot, if_neg hdots, if_neg (by simp [hshort]), if_neg hn,
      if_pos rfl]

theorem walk_ne_link (hlink : fs.LinkFree) (manner : Manner) (here stop : Route)
    (path rest : List Text) (target : Text) :
    fs.walk manner here path ≠ .link stop target rest := by
  induction path generalizing here with
  | nil => simp [walk]
  | cons name path ih =>
    rw [walk_cons hlink]
    split_ifs
    · exact ih _
    · exact ih _
    · simp
    · exact ih _
    · simp
    · simp
    · simp

/-! ## Directories that stand -/

theorem Stands.dropLast (h : fs.Stands r) : fs.Stands r.dropLast where
  names name hname := h.names name (List.mem_of_mem_dropLast hname)
  directories above habove := h.directories above (habove.trans (List.dropLast_prefix r))

theorem Stands.isDirectory (h : fs.Stands r) : fs.node? r = some .directory :=
  h.directories r (List.prefix_refl r)

theorem Stands.enter {name : Text} (h : fs.Stands r) (hname : Route.IsName name)
    (hn : fs.node? (r ++ [name]) = some .directory) : fs.Stands (r ++ [name]) where
  names other hother := by
    rcases List.mem_append.1 hother with hother | hother
    · exact h.names other hother
    · exact List.mem_singleton.1 hother ▸ hname
  directories above habove := by
    rcases List.prefix_concat_iff.1 habove with rfl | habove
    · exact hn
    · exact h.directories above habove

theorem Stands.keeping (h : fs.Stands r)
    (hkeep : ∀ q, fs.node? q = some .directory → fs'.node? q = some .directory) : fs'.Stands r where
  names := h.names
  directories above habove := hkeep above (h.directories above habove)

/-- the steps of a path are names, apart from `.` and `..` -/
def Steppable (path : List Text) : Prop :=
  ∀ name ∈ path, name ≠ [] ∧ '/' ∉ name ∧ '\x00' ∉ name

theorem Steppable.isName {name : Text} {rest : List Text} (h : Steppable (name :: rest))
    (hdot : name ≠ ['.']) (hdots : name ≠ ['.', '.'])
    (hshort : tooLong manner (here ++ [name]) = false) : Route.IsName name := by
  obtain ⟨hne, hslash, hnul⟩ := h name List.mem_cons_self
  refine ⟨hne, hdot, hdots, hslash, hnul, ?_⟩
  simp only [tooLong, List.getLast?_concat, Option.getD_some, Bool.or_eq_false_iff,
    decide_eq_false_iff_not] at hshort
  omega

theorem Steppable.tail {name : Text} {rest : List Text} (h : Steppable (name :: rest)) :
    Steppable rest := fun other hother => h other (List.mem_cons_of_mem _ hother)

theorem Steppable.append {path' : List Text} (h : Steppable path) (h' : Steppable path') :
    Steppable (path ++ path') := by
  intro name hname
  exact (List.mem_append.1 hname).elim (h name) (h' name)

theorem steppable_steps {p : Text} (h : '\x00' ∉ p) : Steppable (steps p) := by
  intro name hname
  obtain ⟨hne, hslash, hnul⟩ := mem_steps hname
  exact ⟨hne, hslash, hnul h⟩

/-- what a walk arrives at is in a directory that stands -/
theorem Passes.arrival (h : Passes fs manner here path r node) (hhere : fs.Stands here)
    (hpath : Steppable path) :
    fs.Stands r.dropLast ∧ (∀ name ∈ r, Route.IsName name) ∧ fs.node? r = node := by
  induction h with
  | done => exact ⟨hhere.dropLast, hhere.names, hhere.isDirectory⟩
  | stay _ ih => exact ih hhere hpath.tail
  | up _ ih => exact ih hhere.dropLast hpath.tail
  | enter hdot hdots hshort hn _ ih =>
    exact ih (hhere.enter (hpath.isName hdot hdots hshort) hn) hpath.tail
  | @last here name hdot hdots hshort hn =>
    refine ⟨by rw [List.dropLast_concat]; exact hhere, fun other hother => ?_, rfl⟩
    rcases List.mem_append.1 hother with hother | hother
    · exact hhere.names other hother
    · exact List.mem_singleton.1 hother ▸ hpath.isName hdot hdots hshort

/-- what is not a directory is arrived at by its name -/
theorem Passes.getLast? (h : Passes fs manner here path r node) (hnode : node ≠ some .directory) :
    r.getLast? = path.getLast? := by
  induction h with
  | done => exact absurd rfl hnode
  | @stay here rest r node hrest ih =>
    cases rest with
    | nil => cases hrest; exact absurd rfl hnode
    | cons name rest => rw [ih hnode, List.getLast?_cons_cons]
  | @up here rest r node hrest ih =>
    cases rest with
    | nil => cases hrest; exact absurd rfl hnode
    | cons name rest => rw [ih hnode, List.getLast?_cons_cons]
  | @enter here name rest r node _ _ _ _ hrest ih =>
    cases rest with
    | nil => cases hrest; exact absurd rfl hnode
    | cons other rest => rw [ih hnode, List.getLast?_cons_cons]
  | last => simp

/-- a walk that goes on in a file system where every directory is still one ends at the same place -/
theorem Passes.keeping (h : Passes fs manner here path r node) (hhere : fs.Stands here)
    (hpath : Steppable path)
    (hkeep : ∀ q, fs.node? q = some .directory → fs'.node? q = some .directory) :
    Passes fs' manner here path r (fs'.node? r) := by
  induction h with
  | done => rw [hkeep _ hhere.isDirectory]; exact .done
  | stay _ ih => exact .stay (ih hhere hpath.tail)
  | up _ ih => exact .up (ih hhere.dropLast hpath.tail)
  | enter hdot hdots hshort hn _ ih =>
    exact .enter hdot hdots hshort (hkeep _ hn)
      (ih (hhere.enter (hpath.isName hdot hdots hshort) hn) hpath.tail)
  | @last here name hdot hdots hshort _ =>
    by_cases hn : fs'.node? (here ++ [name]) = some .directory
    · rw [hn]
      exact .enter hdot hdots hshort hn .done
    · exact .last hdot hdots hshort hn

/-! ## Absolute paths -/

theorem tooLong_through (r : Route) (name : Text) :
    tooLong .through (r ++ [name]) = decide (longestName < Utf8.size name) := by
  simp [tooLong]

theorem tooLong_spelled (r : Route) (name : Text) :
    tooLong .spelled (r ++ [name]) = (tooLong .through (r ++ [name]) ||
      decide (longestPath < Utf8.size (Route.text (r ++ [name])))) := by
  rw [tooLong_through]
  simp [tooLong]

/-- looking places up by their absolute paths takes the same way or stops at one that is too long -/
theorem Passes.spelled (h : Passes fs .through here path r node) (hlink : fs.LinkFree) :
    Passes fs .spelled here path r node ∨
      fs.walk .spelled here path = .failed .nameTooLong := by
  induction h with
  | done => exact Or.inl .done
  | stay _ ih =>
    rcases ih with h | h
    · exact Or.inl (.stay h)
    · exact Or.inr (by rw [walk_cons hlink, if_pos rfl, h])
  | up _ ih =>
    rcases ih with h | h
    · exact Or.inl (.up h)
    · exact Or.inr (by rw [walk_cons hlink, if_neg (by decide), if_pos rfl, h])
  | @enter here name rest r node hdot hdots hshort hn _ ih =>
    by_cases hlong : tooLong .spelled (here ++ [name]) = true
    · exact Or.inr (by rw [walk_cons hlink, if_neg hdot, if_neg hdots, if_pos hlong])
    · rcases ih with h | h
      · exact Or.inl (.enter hdot hdots (by simpa using hlong) hn h)
      · exact Or.inr (by rw [walk_cons hlink, if_neg hdot, if_neg hdots, if_neg hlong, if_pos hn, h])
  | @last here name hdot hdots hshort hn =>
    by_cases hlong : tooLong .spelled (here ++ [name]) = true
    · exact Or.inr (by rw [walk_cons hlink, if_neg hdot, if_neg hdots, if_pos hlong])
    · exact Or.inl (.last hdot hdots (by simpa using hlong) hn)

/-- a name that is short enough is so in its absolute path, if there is room for that -/
theorem tooLong_spelled_of_extent {name : Text}
    (hshort : tooLong .through (here ++ [name]) = false)
    (hextent : Route.extent (here ++ [name]) ≤ longestPath) :
    tooLong .spelled (here ++ [name]) = false := by
  have hsize := Route.size_text (r := here ++ [name]) (by simp)
  rw [tooLong_spelled, hshort, Bool.false_or, decide_eq_false_iff_not]
  omega

/-- what a name adds to the directory it takes from the rest of the path -/
theorem extent_enter {name : Text} (hdot : name ≠ ['.']) (here : Route) (rest : List Text) :
    Route.extent here + Route.extent ((name :: rest).filter (· != ['.'])) =
      Route.extent (here ++ [name]) + Route.extent (rest.filter (· != ['.'])) := by
  rw [List.filter_cons_of_pos (by simpa using hdot), ← Route.extent_append, List.append_cons,
    Route.extent_append]

/-- no place is too long if the directory and all the names are short enough together -/
theorem Passes.spelled_of_extent (h : Passes fs .through here path r node)
    (hextent : Route.extent here + Route.extent (path.filter (· != ['.'])) ≤ longestPath) :
    Passes fs .spelled here path r node := by
  induction h with
  | done => exact .done
  | stay _ ih => exact .stay (ih hextent)
  | @up here rest r node _ ih =>
    refine .up (ih ?_)
    have hup : Route.extent here.dropLast ≤ Route.extent here :=
      ((List.dropLast_sublist here).map _).sum_le_sum fun _ _ => Nat.zero_le _
    have hrest : Route.extent ((['.', '.'] :: rest).filter (· != ['.'])) =
        3 + Route.extent (rest.filter (· != ['.'])) := rfl
    omega
  | enter hdot hdots hshort hn _ ih =>
    rw [extent_enter hdot] at hextent
    exact .enter hdot hdots (tooLong_spelled_of_extent hshort (by omega)) hn (ih hextent)
  | last hdot hdots hshort hn =>
    rw [extent_enter hdot] at hextent
    exact .last hdot hdots (tooLong_spelled_of_extent hshort (by omega)) hn

/-- what is not a directory was looked up by a path that is not too long -/
theorem Passes.size_le (h : Passes fs .spelled here path r node)
    (hnode : node ≠ some .directory) : Utf8.size r.text ≤ longestPath := by
  induction h with
  | done => exact absurd rfl hnode
  | stay _ ih => exact ih hnode
  | up _ ih => exact ih hnode
  | enter _ _ _ _ _ ih => exact ih hnode
  | last _ _ hshort _ =>
    rw [tooLong_spelled, Bool.or_eq_false_iff, decide_eq_false_iff_not] at hshort
    omega

/-- names that lead down through directories are passed one by one -/
theorem passes_down {more : Route} (h : fs.Stands (here ++ more))
    (hrest : Passes fs .through (here ++ more) path r node) :
    Passes fs .through here (more ++ path) r node := by
  induction more generalizing here with
  | nil => rwa [List.append_nil] at hrest
  | cons name more ih =>
    rw [List.append_cons] at h hrest
    have hname := h.names name (by simp)
    refine .enter hname.not_here hname.not_above ?_ (h.directories _ (List.prefix_append _ _))
      (ih h hrest)
    rw [tooLong_through, decide_eq_false_iff_not]
    exact Nat.not_lt.2 hname.short

/-- the names of a place lead to it from the root -/
theorem passes_absolute {name : Text} (h : fs.Stands r) (hname : Route.IsName name)
    (hn : fs.node? (r ++ [name]) ≠ some .directory) :
    Passes fs .through [] (r ++ [name]) (r ++ [name]) (fs.node? (r ++ [name])) := by
  refine passes_down h (.last hname.not_here hname.not_above ?_ hn)
  rw [List.nil_append, tooLong_through, decide_eq_false_iff_not]
  exact Nat.not_lt.2 hname.short

end CodeCache.FileSystem
