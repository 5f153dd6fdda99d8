/-
Walks in file systems with links.

A walk stops at each link that it has to follow and is taken up again behind it, so a whole walk is
a run of link-free stretches. `Follows` is that run with nothing counted, and every walk that arrives
is one (`follows_of_walkThrough`). What holds of whole walks is an induction on it:
- `Follows.arrival`: a walk from a directory that stands arrives in one.
- `Follows.getLast?`: a walk that does not follow a link at its end arrives at its last name.
- `Follows.directory_of_endsIdle`: a walk whose last step is no name arrives in a directory.

The manners are compared step by step (`walk_induction`): looking places up by their absolute paths
goes the same way unless one of these is too long (`place_spelled`), and sparing a link at the end
goes the same way unless there is one (`place_upTo`).

Main results:
- `write_eq_ok_iff`: a write lands where its path leads, unless that is a directory;
- `canonical_of_find`: the canonical path of a file names its place, and reads back as the file.
-/
import CodeCache.Proofs.System.NamedPlaces

namespace CodeCache.FileSystem

/-- what links hold can be said, as on any real disk -/
def LinksSayable (fs : FileSystem) : Prop :=
  ∀ r target, fs.node? r = some (.link target) → '\x00' ∉ target

theorem linksSayable_of_nodes {fs : FileSystem}
    (h : ∀ entry ∈ fs.nodes, ∀ target, entry.2 = .link target → '\x00' ∉ target) :
    fs.LinksSayable := by
  intro r target hr
  by_cases hroot : r.isEmpty = true
  · rw [node?, if_pos hroot] at hr
    cases hr
  rw [node?, if_neg hroot] at hr
  obtain ⟨before, after, hnodes, -⟩ := List.lookup_eq_some_iff.1 hr
  exact h (r, .link target) (by rw [hnodes]; simp) target rfl

/-! ## Whole walks -/

/-- a walk from a directory, through these steps and the links on the way, to a place and what is
there -/
inductive Follows (fs : FileSystem) (manner : Manner) :
    Route → List Text → Route → Option Node → Prop where
  | done {here} : Follows fs manner here [] here (some .directory)
  | stay {here rest r node} :
    Follows fs manner here rest r node → Follows fs manner here (['.'] :: rest) r node
  | up {here rest r node} :
    Follows fs manner here.dropLast rest r node → Follows fs manner here (['.', '.'] :: rest) r node
  | enter {here name rest r node} :
    name ≠ ['.'] → name ≠ ['.', '.'] → tooLong manner (here ++ [name]) = false →
    fs.node? (here ++ [name]) = some .directory →
    Follows fs manner (here ++ [name]) rest r node → Follows fs manner here (name :: rest) r node
  | last {here name} :
    name ≠ ['.'] → name ≠ ['.', '.'] → tooLong manner (here ++ [name]) = false →
    fs.node? (here ++ [name]) ≠ some .directory →
    (manner ≠ .upTo → ∀ target, fs.node? (here ++ [name]) ≠ some (.link target)) →
    Follows fs manner here [name] (here ++ [name]) (fs.node? (here ++ [name]))
  | link {here name target rest r node} :
    name ≠ ['.'] → name ≠ ['.', '.'] → tooLong manner (here ++ [name]) = false →
    fs.node? (here ++ [name]) = some (.link target) → (manner = .upTo → rest ≠ []) →
    Follows fs manner (origin here target) (steps target ++ rest) r node →
    Follows fs manner here (name :: rest) r node

variable {fs : FileSystem} {manner : Manner} {here there stop r : Route} {p target : Text}
  {path rest : List Text} {node : Option Node}

/-! ## Single steps -/

section Steps

variable {name : Text}

theorem walk_here (fs : FileSystem) (manner : Manner) (here : Route) (rest : List Text) :
    fs.walk manner here (['.'] :: rest) = fs.walk manner here rest := by
  rw [walk, if_pos rfl]

theorem walk_up (fs : FileSystem) (manner : Manner) (here : Route) (rest : List Text) :
    fs.walk manner here (['.', '.'] :: rest) = fs.walk manner here.dropLast rest := by
  rw [walk, if_neg (by decide), if_pos rfl]

theorem walk_tooLong (hdot : name ≠ ['.']) (hdots : name ≠ ['.', '.'])
    (hlong : tooLong manner (here ++ [name]) = true) :
    fs.walk manner here (name :: rest) = .failed .nameTooLong := by
  rw [walk, if_neg hdot, if_neg hdots, if_pos hlong]

/-- a step by a name: into a directory, to a link that is followed or spared, or to its end -/
theorem walk_name (hdot : name ≠ ['.']) (hdots : name ≠ ['.', '.'])
    (hshort : tooLong manner (here ++ [name]) = false) :
    fs.walk manner here (name :: rest) =
      match fs.node? (here ++ [name]) with
      | some .directory => fs.walk manner (here ++ [name]) rest
      | some (.link target) =>
        if rest = [] ∧ manner = .upTo then .arrived ⟨here ++ [name], some (.link target)⟩
        else .link here target rest
      | some (.file content executable program) =>
        if rest = [] then .arrived ⟨here ++ [name], some (.file content executable program)⟩
        else .failed .notADirectory
      | none => if rest = [] then .arrived ⟨here ++ [name], none⟩ else .failed .notFound := by
  rw [walk, if_neg hdot, if_neg hdots, if_neg (by simp [hshort])]
  cases fs.node? (here ++ [name]) with
  | none => simp
  | some found => cases found <;> simp

/-- induction along a path: nothing is left of it, or it stays, goes up, or goes on by a name -/
theorem walk_induction {motive : Route → List Text → Prop} (nil : ∀ here, motive here [])
    (stay : ∀ here rest, motive here rest → motive here (['.'] :: rest))
    (up : ∀ here rest, motive here.dropLast rest → motive here (['.', '.'] :: rest))
    (name : ∀ here name rest, name ≠ ['.'] → name ≠ ['.', '.'] → motive (here ++ [name]) rest →
      motive here (name :: rest)) (here : Route) (path : List Text) : motive here path := by
  induction path generalizing here with
  | nil => exact nil here
  | cons step rest ih =>
    by_cases hdot : step = ['.']
    · subst hdot
      exact stay here rest (ih here)
    by_cases hdots : step = ['.', '.']
    · subst hdots
      exact up here rest (ih here.dropLast)
    exact name here step rest hdot hdots (ih (here ++ [step]))

end Steps

/-- one stretch of a walk: it arrives, or goes on behind a link -/
theorem follows_of_walk :
    (∀ {r node}, fs.walk manner here path = .arrived ⟨r, node⟩ →
      Follows fs manner here path r node) ∧
    ∀ {stop target rest r node}, fs.walk manner here path = .link stop target rest →
      Follows fs manner (origin stop target) (steps target ++ rest) r node →
      Follows fs manner here path r node := by
  induction here, path using walk_induction with
  | nil here =>
    constructor
    · intro r node h
      cases h
      exact .done
    · intro stop target rest r node h
      cases h
  | stay here rest ih =>
    rw [walk_here]
    exact ⟨fun h => .stay (ih.1 h), fun h hrest => .stay (ih.2 h hrest)⟩
  | up here rest ih =>
    rw [walk_up]
    exact ⟨fun h => .up (ih.1 h), fun h hrest => .up (ih.2 h hrest)⟩
  | name here name rest hdot hdots ih =>
    cases hshort : tooLong manner (here ++ [name]) with
    | true =>
      rw [walk_tooLong hdot hdots hshort]
      exact ⟨fun h => (by cases h), fun h => (by cases h)⟩
    | false =>
      rw [walk_name hdot hdots hshort]
      -- a walk that ends here ends at what is there, unless that is a link to be followed
      have hlast : fs.node? (here ++ [name]) ≠ some .directory →
          (manner ≠ .upTo → ∀ target, fs.node? (here ++ [name]) ≠ some (.link target)) →
          Follows fs manner here [name] (here ++ [name]) (fs.node? (here ++ [name])) :=
        .last hdot hdots hshort
      cases hn : fs.node? (here ++ [name]) with
      | none =>
        rw [hn] at hlast
        dsimp only
        split_ifs with hrest
        · subst hrest
          exact ⟨fun h => (by cases h; exact hlast (by simp) (by simp)), fun h => (by cases h)⟩
        · exact ⟨fun h => (by cases h), fun h => (by cases h)⟩
      | some found =>
        rw [hn] at hlast
        cases found with
        | directory =>
          exact ⟨fun h => .enter hdot hdots hshort hn (ih.1 h),
            fun h hrest => .enter hdot hdots hshort hn (ih.2 h hrest)⟩
        | link target =>
          dsimp only
          split_ifs with hspared
          · obtain ⟨rfl, hmanner⟩ := hspared
            exact ⟨fun h => (by cases h; exact hlast (by simp) fun hother => absurd hmanner hother),
              fun h => (by cases h)⟩
          · refine ⟨fun h => (by cases h), fun h hrest => ?_⟩
            cases h
            exact .link hdot hdots hshort hn (fun hmanner hnil => hspared ⟨hnil, hmanner⟩) hrest
        | file content executable program =>
          dsimp only
          split_ifs with hrest
          · subst hrest
            exact ⟨fun h => (by cases h; exact hlast (by simp) (by simp)), fun h => (by cases h)⟩
          · exact ⟨fun h => (by cases h), fun h => (by cases h)⟩

/-- a whole walk arrives by its first stretch, or behind the link that this stops at -/
theorem walkThrough_eq_ok_iff {links : Nat} {place : Place} :
    fs.walkThrough manner links here path = .ok place ↔
      fs.walk manner here path = .arrived place ∨
        ∃ fewer stop target rest, links = fewer + 1 ∧
          fs.walk manner here path = .link stop target rest ∧
          fs.walkThrough manner fewer (origin stop target) (steps target ++ rest) = .ok place := by
  rw [walkThrough]
  cases fs.walk manner here path with
  | arrived there => simp
  | failed e => simp
  | link stop target rest =>
    cases links with
    | zero => simp
    | succ fewer => simp [origin]

theorem follows_of_walkThrough {links : Nat}
    (h : fs.walkThrough manner links here path = .ok ⟨r, node⟩) :
    Follows fs manner here path r node := by
  induction links using Nat.strong_induction_on generalizing here path with
  | _ links ih =>
    rcases walkThrough_eq_ok_iff.1 h with hwalk | ⟨fewer, stop, target, rest, rfl, hwalk, hrest⟩
    · exact follows_of_walk.1 hwalk
    · exact follows_of_walk.2 hwalk (ih fewer (Nat.lt_succ_self fewer) hrest)

theorem follows_of_place (h : fs.place here manner p = .ok ⟨r, node⟩) :
    Sayable p ∧ Follows fs manner (origin here p) (steps p) r node := by
  have hp := sayable_of_place h
  rw [place_eq hp] at h
  exact ⟨hp, follows_of_walkThrough h⟩

/-! ## Where a walk arrives -/

/-- what a walk arrives at is in a directory that stands -/
theorem Follows.arrival (h : Follows fs manner here path r node) (hlinks : fs.LinksSayable)
    (hhere : fs.Stands here) (hpath : Steppable path) :
    fs.Stands r.dropLast ∧ (∀ name ∈ r, Route.IsName name) ∧ fs.node? r = node := by
  induction h with
  | done => exact ⟨hhere.dropLast, hhere.names, hhere.isDirectory⟩
  | stay _ ih => exact ih hhere hpath.tail
  | up _ ih => exact ih hhere.dropLast hpath.tail
  | enter hdot hdots hshort hn _ ih =>
    exact ih (hhere.enter (hpath.isName hdot hdots hshort) hn) hpath.tail
  | @last here name hdot hdots hshort hn _ =>
    refine ⟨by rw [List.dropLast_concat]; exact hhere, fun other hother => ?_, rfl⟩
    rcases List.mem_append.1 hother with hother | hother
    · exact hhere.names other hother
    · exact List.mem_singleton.1 hother ▸ hpath.isName hdot hdots hshort
  | link _ _ _ hn _ _ ih =>
    exact ih (hhere.origin _) ((steppable_steps (hlinks _ _ hn)).append hpath.tail)

/-- what a walk arrives at is what is there -/
theorem Follows.node_eq (h : Follows fs manner here path r node) (hnode : node ≠ some .directory) :
    node = fs.node? r := by
  induction h with
  | done => exact absurd rfl hnode
  | stay _ ih => exact ih hnode
  | up _ ih => exact ih hnode
  | enter _ _ _ _ _ ih => exact ih hnode
  | last => rfl
  | link _ _ _ _ _ _ ih => exact ih hnode

/-- links are followed, the one at the end too -/
theorem Follows.ne_link (h : Follows fs manner here path r node) (hmanner : manner ≠ .upTo)
    (target : Text) : node ≠ some (.link target) := by
  induction h with
  | done => simp
  | stay _ ih => exact ih
  | up _ ih => exact ih
  | enter _ _ _ _ _ ih => exact ih
  | last _ _ _ _ hlink => exact hlink hmanner target
  | link _ _ _ _ _ _ ih => exact ih

/-- what is not a directory was looked up by a path that is not too long -/
theorem Follows.size_le (h : Follows fs .spelled here path r node)
    (hnode : node ≠ some .directory) : Utf8.size r.text ≤ longestPath := by
  induction h with
  | done => exact absurd rfl hnode
  | stay _ ih => exact ih hnode
  | up _ ih => exact ih hnode
  | enter _ _ _ _ _ ih => exact ih hnode
  | last _ _ hshort _ _ =>
    rw [tooLong_spelled, Bool.or_eq_false_iff, decide_eq_false_iff_not] at hshort
    omega
  | link _ _ _ _ _ _ ih => exact ih hnode

/-- only a directory is arrived at without a step -/
theorem Follows.ne_nil (h : Follows fs manner here path r node) (hnode : node ≠ some .directory) :
    path ≠ [] := by
  rintro rfl
  cases h
  exact hnode rfl

/-- a walk that spares a link at its end arrives by its last step at what is not a directory -/
theorem Follows.getLast? (h : Follows fs .upTo here path r node) (hnode : node ≠ some .directory) :
    r.getLast? = path.getLast? := by
  induction h with
  | done => exact absurd rfl hnode
  | stay hrest ih => rw [ih hnode, List.getLast?_cons_of_ne_nil (hrest.ne_nil hnode)]
  | up hrest ih => rw [ih hnode, List.getLast?_cons_of_ne_nil (hrest.ne_nil hnode)]
  | enter _ _ _ _ hrest ih => rw [ih hnode, List.getLast?_cons_of_ne_nil (hrest.ne_nil hnode)]
  | last => simp
  | link _ _ _ _ hmore _ ih =>
    rw [ih hnode, List.getLast?_append_of_ne_nil _ (hmore rfl),
      List.getLast?_cons_of_ne_nil (hmore rfl)]

/-! ## Steps that are no names -/

section Idle

variable {name : Text}

/-- the last step is no name -/
def EndsIdle (path : List Text) : Prop :=
  path.getLast? = some ['.'] ∨ path.getLast? = some ['.', '.']

theorem endsIdle_singleton : EndsIdle [name] ↔ name = ['.'] ∨ name = ['.', '.'] := by
  simp [EndsIdle]

theorem endsIdle_append (hpath : path ≠ []) (before : List Text) :
    EndsIdle (before ++ path) ↔ EndsIdle path := by
  rw [EndsIdle, EndsIdle, List.getLast?_append_of_ne_nil _ hpath]

/-- a slash at the end of a path is a step too -/
theorem endsIdle_steps (h : p.getLast? = some '/') : EndsIdle (steps p) := by
  rw [steps, h, if_pos (by decide), endsIdle_append (List.cons_ne_nil _ _)]
  exact endsIdle_singleton.2 (.inl rfl)

/-- behind the first step, such a path is at its end in a directory, or goes on to one -/
theorem Follows.endsIdle_tail (h : Follows fs manner here path r node)
    (hidle : EndsIdle (name :: path)) : node = some .directory ∨ EndsIdle path := by
  cases path with
  | nil =>
    cases h
    exact .inl rfl
  | cons next rest => exact .inr hidle

/-- a walk whose last step is `.` or `..` ends in a directory -/
theorem Follows.directory_of_endsIdle (h : Follows fs manner here path r node)
    (hidle : EndsIdle path) : node = some .directory := by
  induction h with
  | done => rfl
  | stay hrest ih => exact (hrest.endsIdle_tail hidle).elim id ih
  | up hrest ih => exact (hrest.endsIdle_tail hidle).elim id ih
  | enter _ _ _ _ hrest ih => exact (hrest.endsIdle_tail hidle).elim id ih
  | last hdot hdots => exact ((endsIdle_singleton.1 hidle).elim hdot hdots).elim
  | @link here name target rest r node hdot hdots _ _ _ _ ih =>
    -- the link is not the last step, as that is no name
    by_cases hrest : rest = []
    · subst hrest
      exact ((endsIdle_singleton.1 hidle).elim hdot hdots).elim
    · exact ih ((endsIdle_append hrest _).2 ((endsIdle_append hrest [name]).1 hidle))

end Idle

/-! ## Manners -/

/-- looking places up by their absolute paths takes the same stretch or stops at one too long -/
theorem walk_spelled (fs : FileSystem) (here : Route) (path : List Text) :
    fs.walk .spelled here path = fs.walk .through here path ∨
      fs.walk .spelled here path = .failed .nameTooLong := by
  induction here, path using walk_induction with
  | nil here => exact .inl rfl
  | stay here rest ih => simpa only [walk_here] using ih
  | up here rest ih => simpa only [walk_up] using ih
  | name here name rest hdot hdots ih =>
    cases hshort : tooLong .spelled (here ++ [name]) with
    | true => exact .inr (walk_tooLong hdot hdots hshort)
    | false =>
      have hthrough : tooLong .through (here ++ [name]) = false := by
        rw [tooLong_spelled, Bool.or_eq_false_iff] at hshort
        exact hshort.1
      rw [walk_name hdot hdots hshort, walk_name hdot hdots hthrough]
      cases fs.node? (here ++ [name]) with
      | none => exact .inl rfl
      | some found =>
        cases found with
        | directory => exact ih
        | link target => exact .inl (by simp)
        | file content executable program => exact .inl rfl

theorem walkThrough_spelled (fs : FileSystem) (links : Nat) (here : Route) (path : List Text) :
    fs.walkThrough .spelled links here path = fs.walkThrough .through links here path ∨
      fs.walkThrough .spelled links here path = .error .nameTooLong := by
  induction links generalizing here path with
  | zero =>
    rw [walkThrough, walkThrough]
    rcases fs.walk_spelled here path with h | h <;> rw [h]
    · exact .inl rfl
    · exact .inr rfl
  | succ links ih =>
    rw [walkThrough, walkThrough]
    rcases fs.walk_spelled here path with h | h <;> rw [h]
    · cases fs.walk .through here path with
      | arrived place => exact .inl rfl
      | failed e => exact .inl rfl
      | link stop target rest => exact ih _ _
    · exact .inr rfl

theorem place_spelled (hp : Sayable p) (fs : FileSystem) (here : Route) :
    fs.place here .spelled p = fs.place here .through p ∨
      fs.place here .spelled p = .error .nameTooLong := by
  rw [place_eq hp, place_eq hp]
  exact fs.walkThrough_spelled _ _ _

/-- sparing a link at the end takes the same stretch or arrives at a link -/
theorem walk_sparing (fs : FileSystem) (here : Route) (path : List Text) :
    fs.walk .upTo here path = fs.walk .through here path ∨
      ∃ r target, fs.walk .upTo here path = .arrived ⟨r, some (.link target)⟩ := by
  induction here, path using walk_induction with
  | nil here => exact .inl rfl
  | stay here rest ih => simpa only [walk_here] using ih
  | up here rest ih => simpa only [walk_up] using ih
  | name here name rest hdot hdots ih =>
    cases hshort : tooLong .upTo (here ++ [name]) with
    | true =>
      have hthrough : tooLong .through (here ++ [name]) = true := hshort
      exact .inl (by rw [walk_tooLong hdot hdots hshort, walk_tooLong hdot hdots hthrough])
    | false =>
      have hthrough : tooLong .through (here ++ [name]) = false := hshort
      rw [walk_name hdot hdots hshort, walk_name hdot hdots hthrough]
      cases fs.node? (here ++ [name]) with
      | none => exact .inl rfl
      | some found =>
        cases found with
        | directory => exact ih
        | link target =>
          by_cases hrest : rest = []
          · exact .inr ⟨here ++ [name], target, by simp [hrest]⟩
          · exact .inl (by simp [hrest])
        | file content executable program => exact .inl rfl

theorem walkThrough_sparing (fs : FileSystem) (links : Nat) (here : Route) (path : List Text) :
    fs.walkThrough .upTo links here path = fs.walkThrough .through links here path ∨
      ∃ r target, fs.walkThrough .upTo links here path = .ok ⟨r, some (.link target)⟩ := by
  induction links generalizing here path with
  | zero =>
    rw [walkThrough, walkThrough]
    rcases fs.walk_sparing here path with h | ⟨r, target, h⟩ <;> rw [h]
    · exact .inl rfl
    · exact .inr ⟨r, target, rfl⟩
  | succ links ih =>
    rw [walkThrough, walkThrough]
    rcases fs.walk_sparing here path with h | ⟨r, target, h⟩ <;> rw [h]
    · cases fs.walk .through here path with
      | arrived place => exact .inl rfl
      | failed e => exact .inl rfl
      | link stop target rest => exact ih _ _
    · exact .inr ⟨r, target, rfl⟩

/-- unless a path ends with a link, it leads to the same whether that would be followed or not -/
theorem place_upTo (h : fs.place here .upTo p = .ok ⟨r, node⟩)
    (hnode : ∀ target, node ≠ some (.link target)) : fs.place here .through p = .ok ⟨r, node⟩ := by
  have hp := sayable_of_place h
  rw [place_eq hp] at h ⊢
  rcases fs.walkThrough_sparing mostLinks (origin here p) (steps p) with heq | ⟨_, target, heq⟩
  · rw [← heq, h]
  · rw [heq] at h
    cases h
    exact absurd rfl (hnode target)

/-! ## Where files are written -/

/-- a file that is replaced may be executed as before -/
def mayExecute : Option Node → Bool
  | some (.file _ executable _) => executable
  | _ => false

/-- a file can be written under the path, at this place -/
structure Lands (fs : FileSystem) (here : Route) (p : Text) (r : Route) : Prop where
  place : fs.place here .through p = .ok ⟨r, fs.node? r⟩
  free : fs.node? r ≠ some .directory

theorem lands_of_place (h : fs.place here .through p = .ok ⟨r, node⟩)
    (hnode : node ≠ some .directory) : fs.Lands here p r := by
  obtain rfl := (follows_of_place h).2.node_eq hnode
  exact ⟨h, hnode⟩

theorem Lands.ne_nil (h : fs.Lands here p r) : r ≠ [] := by
  rintro rfl
  exact h.free rfl

/-- a file is replaced, or there is nothing yet -/
theorem Lands.node?_eq (h : fs.Lands here p r) :
    fs.node? r = none ∨ ∃ content executable program,
      fs.node? r = some (.file content executable program) := by
  have hlink := (follows_of_place h.place).2.ne_link (by decide)
  have hfree := h.free
  cases hn : fs.node? r with
  | none => exact .inl rfl
  | some found =>
    rw [hn] at hlink hfree
    cases found with
    | file content executable program => exact .inr ⟨content, executable, program, rfl⟩
    | directory => exact absurd rfl hfree
    | link target => exact absurd rfl (hlink target)

theorem isOverlong_of_sayable (hp : Sayable p) : isOverlong p = false := by
  rw [isOverlong, decide_eq_false (Nat.not_lt.2 hp.short), Bool.false_and]

theorem Lands.write (h : fs.Lands here p r) (content : Bytes) :
    fs.write here p content = .ok (fs.put r (.file content (mayExecute (fs.node? r)) none)) := by
  obtain ⟨hp, hfollows⟩ := follows_of_place h.place
  -- a path with a slash at its end asks for a directory
  have hslash : ¬(!p.isEmpty && p.getLast? == some '/' && !List.contains p '\x00') = true := by
    intro hslash
    simp only [Bool.and_eq_true, beq_iff_eq] at hslash
    exact h.free (hfollows.directory_of_endsIdle (endsIdle_steps hslash.1.2))
  rw [FileSystem.write, isOverlong_of_sayable hp, if_neg Bool.false_ne_true, if_neg hslash, h.place]
  rcases h.node?_eq with hnone | ⟨old, executable, program, hfile⟩
  · rw [hnone]
    rfl
  · rw [hfile]
    rfl

/-- **Writes**: a write succeeds exactly under the paths that lead to a file or to nothing, and changes
what is there. -/
theorem write_eq_ok_iff {fs' : FileSystem} {content : Bytes} :
    fs.write here p content = .ok fs' ↔
      ∃ r, fs.Lands here p r ∧ fs' = fs.put r (.file content (mayExecute (fs.node? r)) none) := by
  constructor
  · intro h
    obtain ⟨r, node, executable, hplace, hnode, -⟩ := write_spec h
    have hlands := lands_of_place hplace hnode
    rw [hlands.write] at h
    exact ⟨r, hlands, (Except.ok.inj h).symm⟩
  · rintro ⟨r, hlands, rfl⟩
    exact hlands.write content

/-! ## Canonical paths -/

/-- what is at a place, in a directory that stands, is what the path of the place leads to -/
theorem place_text_of_stands {name : Text} (h : fs.Stands stop) (hname : Route.IsName name)
    (hnode : ∀ target, fs.node? (stop ++ [name]) ≠ some (.link target))
    (hsize : Utf8.size (Route.text (stop ++ [name])) ≤ longestPath) (here : Route) :
    fs.place here .through (Route.text (stop ++ [name])) =
      .ok ⟨stop ++ [name], fs.node? (stop ++ [name])⟩ := by
  have hnames : ∀ other ∈ stop ++ [name], Route.IsName other := by
    intro other hother
    rcases List.mem_append.1 hother with hother | hother
    · exact h.names other hother
    · exact List.mem_singleton.1 hother ▸ hname
  have hne : stop ++ [name] ≠ [] := by simp
  have hsayable : Sayable (Route.text (stop ++ [name])) := by
    refine ⟨Route.no_nul_text hnames, ?_, hsize⟩
    rw [Route.text_eq_intercalate hne]
    simp
  have horigin : origin here (Route.text (stop ++ [name])) = [] := by
    rw [origin, if_pos (Route.isAbsolute_text _)]
  have hdown : ([] : Route) ++ stop.filter (· != ['.']) = stop := by
    rw [List.nil_append, List.filter_eq_self]
    intro other hother
    simpa using (h.names other hother).not_here
  have hwalk : fs.walk .through [] (stop ++ [name]) =
      .arrived ⟨stop ++ [name], fs.node? (stop ++ [name])⟩ := by
    rw [walk_down (by decide) (by rwa [hdown]), hdown,
      walk_name hname.not_here hname.not_above (tooLong_of_isName hname (by decide) stop)]
    cases hn : fs.node? (stop ++ [name]) with
    | none => rfl
    | some found =>
      cases found with
      | directory => simp [walk]
      | link target => exact absurd hn (hnode target)
      | file content executable program => rfl
  rw [place_eq hsayable, horigin, steps_text hne hnames, walkThrough, hwalk]

theorem named_text (h : ∀ name ∈ r, Route.IsName name) (here : Route) : named here r.text = r := by
  rw [named, origin, if_pos (Route.isAbsolute_text r), List.nil_append, ← filter_steps]
  by_cases hr : r = []
  · subst hr
    decide
  · rw [steps_text hr h, List.filter_eq_self]
    intro name hname
    simpa using (h name hname).not_here

/-- a directory cannot be read, by whatever path it is looked up -/
theorem read_text_of_directory (h : fs.Stands r.dropLast) (hnames : ∀ name ∈ r, Route.IsName name)
    (hnode : fs.node? r = some .directory) (here : Route) :
    ∃ e, fs.read here r.text = .error e := by
  have hstands : fs.Stands r := by
    rcases List.eq_nil_or_concat' r with rfl | ⟨above, name, rfl⟩
    · exact fs.stands_root
    · rw [List.dropLast_concat] at h
      exact h.enter (hnames name (by simp)) hnode
  cases hplace : fs.place here .through r.text with
  | error e => exact ⟨e, by rw [read, find, hplace]; rfl⟩
  | ok place =>
    have hsayable := sayable_of_place hplace
    rw [← named_text hnames here] at hstands
    have hthere : fs.place here .through r.text = .ok ⟨named here r.text, some .directory⟩ :=
      place_of_stands (by decide) hsayable hstands
    exact ⟨.isADirectory, by rw [read, find_of_place hthere]⟩

/-- **Canonical paths**: the canonical path of what a path leads to is that of its place, unless a
path on the way is too long to be looked up. The canonical path of a file leads to the file; a
directory cannot be read by its canonical path either. -/
theorem canonical_of_find {n : Node} (hlinks : fs.LinksSayable) (hhere : fs.Stands here)
    (hfind : fs.find here p = .ok (r, n)) :
    fs.canonical here p = .error .nameTooLong ∨
      (fs.canonical here p = .ok r.text ∧ ∀ there,
        match n with
        | .file content _ _ => fs.read there r.text = .ok content
        | _ => ∃ e, fs.read there r.text = .error e) := by
  have hplace := place_of_find hfind
  obtain ⟨hp, hthrough⟩ := follows_of_place hplace
  obtain ⟨hstands, hnames, hnode⟩ :=
    hthrough.arrival hlinks (hhere.origin p) hp.steppable
  rcases place_spelled hp fs here with hsame | hlong
  · right
    rw [hplace] at hsame
    refine ⟨by rw [canonical, hsame]; rfl, ?_⟩
    intro there
    cases n with
    | link target => exact absurd rfl (hthrough.ne_link (by decide) target)
    | directory => exact read_text_of_directory hstands hnames hnode there
    | file content executable program =>
      have hne : r ≠ [] := by
        rintro rfl
        cases hnode
      obtain ⟨stop, name, rfl⟩ := (List.eq_nil_or_concat' r).resolve_left hne
      rw [List.dropLast_concat] at hstands
      have hsize := (follows_of_place hsame).2.size_le (by simp)
      have hfound := place_text_of_stands hstands (hnames name (by simp)) (by simp [hnode]) hsize
        there
      rw [hnode] at hfound
      dsimp only
      rw [read, find_of_place hfound]
  · exact .inl (by rw [canonical, hlong]; rfl)

/-- a file that a path leads to without a link at its end has the name that the path ends with -/
theorem fileName?_of_unlinked {content : Bytes} {executable : Bool} {program : Option Program}
    (hlinks : fs.LinksSayable) (hhere : fs.Stands here)
    (hplace : fs.place here .upTo p = .ok ⟨r, some (.file content executable program)⟩) :
    Path.fileName? r.text = Path.fileName? p := by
  obtain ⟨hp, hfollows⟩ := follows_of_place hplace
  obtain ⟨-, hnames, hnode⟩ :=
    hfollows.arrival hlinks (hhere.origin p) hp.steppable
  have hne : r ≠ [] := by
    rintro rfl
    cases hnode
  obtain ⟨above, name, rfl⟩ := (List.eq_nil_or_concat' r).resolve_left hne
  have hname := hnames name (by simp)
  have hlast := hfollows.getLast? (by simp)
  rw [List.getLast?_concat] at hlast
  have hpieces : (Path.names p).getLast? = some name := by
    rw [← filter_steps]
    exact Path.getLast?_filter_of_getLast? hlast.symm (by simpa using hname.not_here)
  rw [Path.fileName?_text hnames, Path.fileName?, hpieces]
  exact (if_neg hname.not_above).symm

end CodeCache.FileSystem
