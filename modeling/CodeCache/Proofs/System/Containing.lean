/-
The directory that holds what a path leads to.

Where a path leads to something that is no directory, its last step is a name, and all of its other
steps lead to the directory which that name is looked up in (`walkThrough_last`). The path of the
directory has the same steps but for idle ones, and these do not change where a walk through
directories arrives (`walkThrough_filter`).

Main result, `find_directory`; links on the way are followed by both paths, and counted alike.
-/
import CodeCache.Proofs.System.Components
import CodeCache.Proofs.System.Links
import CodeCache.Proofs.System.NamedChanges

namespace CodeCache.FileSystem

variable {fs : FileSystem} {manner : Manner} {here r : Route} {p : Text} {path rest : List Text}
  {name : Text} {node : Option Node} {links : Nat}

/-! ## The last step -/

/-- a walk with steps behind these is in a directory there, or stops before -/
theorem walk_append (hrest : rest ≠ []) (here : Route) (path : List Text) :
    fs.walk .upTo here (path ++ rest) =
      match fs.walk .through here path with
      | .arrived ⟨r, some .directory⟩ => fs.walk .upTo r rest
      | .arrived ⟨_, some _⟩ => .failed .notADirectory
      | .arrived ⟨_, none⟩ => .failed .notFound
      | .failed e => .failed e
      | .link stop target more => .link stop target (more ++ rest) := by
  induction here, path using walk_induction with
  | nil here => rfl
  | stay here path ih => rw [List.cons_append, walk_here, walk_here, ih]
  | up here path ih => rw [List.cons_append, walk_up, walk_up, ih]
  | name here name path hdot hdots ih =>
    rw [List.cons_append]
    cases hshort : tooLong .through (here ++ [name]) with
    | true =>
      have hupTo : tooLong .upTo (here ++ [name]) = true := hshort
      rw [walk_tooLong hdot hdots hshort, walk_tooLong hdot hdots hupTo]
    | false =>
      have hupTo : tooLong .upTo (here ++ [name]) = false := hshort
      have hmore : path ++ rest ≠ [] := List.append_ne_nil_of_right_ne_nil path hrest
      rw [walk_name hdot hdots hshort, walk_name hdot hdots hupTo]
      cases fs.node? (here ++ [name]) with
      | none =>
        dsimp only
        rw [if_neg hmore]
        split_ifs <;> rfl
      | some found =>
        cases found with
        | directory => exact ih
        | link target =>
          dsimp only
          rw [if_neg fun h => hmore h.1, if_neg fun h => Manner.noConfusion h.2]
        | file content executable program =>
          dsimp only
          rw [if_neg hmore]
          split_ifs <;> rfl

/-- what is one step away from a directory is reached without following a link -/
theorem walk_singleton_ne_link (here stop : Route) (name target : Text) (rest : List Text) :
    fs.walk .upTo here [name] ≠ .link stop target rest := by
  by_cases hdot : name = ['.']
  · subst hdot
    simp [walk]
  by_cases hdots : name = ['.', '.']
  · subst hdots
    simp [walk]
  cases hshort : tooLong .upTo (here ++ [name]) with
  | true => simp [walk_tooLong hdot hdots hshort]
  | false =>
    rw [walk_name hdot hdots hshort]
    cases fs.node? (here ++ [name]) with
    | none => simp
    | some found => cases found <;> simp [walk]

/-- a step is taken by a name, or it is one of `.` and `..` and ends in a directory -/
theorem walk_singleton_spec (h : fs.walk .upTo here [name] = .arrived ⟨r, node⟩) :
    (name ≠ ['.'] ∧ name ≠ ['.', '.'] ∧ r = here ++ [name]) ∨
      (name = ['.'] ∨ name = ['.', '.']) ∧ node = some .directory := by
  have hfollows := follows_of_walk.1 h
  cases hfollows with
  | stay hrest => cases hrest; exact .inr ⟨.inl rfl, rfl⟩
  | up hrest => cases hrest; exact .inr ⟨.inr rfl, rfl⟩
  | enter hdot hdots _ _ hrest => cases hrest; exact .inl ⟨hdot, hdots, rfl⟩
  | last hdot hdots _ _ _ => exact .inl ⟨hdot, hdots, rfl⟩
  | link _ _ _ _ hmore _ => exact absurd rfl (hmore rfl)

/-- **The last step** is taken in the directory that all others lead to -/
theorem walkThrough_last {place : Place}
    (h : fs.walkThrough .upTo links here (path ++ [name]) = .ok place) :
    ∃ above, fs.walkThrough .through links here path = .ok ⟨above, some .directory⟩ ∧
      fs.walk .upTo above [name] = .arrived place := by
  induction links using Nat.strong_induction_on generalizing here path with
  | _ links ih =>
    rw [walkThrough_eq_ok_iff, walk_append (List.cons_ne_nil _ _)] at h
    cases hwalk : fs.walk .through here path with
    | failed e => simp [hwalk] at h
    | arrived there =>
      obtain ⟨above, found⟩ := there
      have hdirectory : found = some .directory := by
        cases found with
        | none => simp [hwalk] at h
        | some found => cases found <;> simp [hwalk] at h ⊢
      subst hdirectory
      simp only [hwalk] at h
      rcases h with hlast | ⟨_, stop, target, rest, -, hlink, -⟩
      · exact ⟨above, walkThrough_eq_ok_iff.2 (.inl hwalk), hlast⟩
      · exact absurd hlink (walk_singleton_ne_link _ _ _ _ _)
    | link stop target more =>
      simp only [hwalk, reduceCtorEq, false_or, Walk.link.injEq] at h
      obtain ⟨fewer, _, _, _, rfl, ⟨rfl, rfl, rfl⟩, hrest⟩ := h
      rw [← List.append_assoc] at hrest
      obtain ⟨above, habove, hlast⟩ := ih fewer (Nat.lt_succ_self fewer) hrest
      exact ⟨above, walkThrough_eq_ok_iff.2 (.inr ⟨fewer, _, _, _, rfl, hwalk, habove⟩), hlast⟩

/-! ## Idle steps -/

/-- idle steps do not matter to a walk that ends in a directory, or stops at a link -/
theorem walk_filter (here : Route) (path : List Text) :
    (∀ r, fs.walk .through here path = .arrived ⟨r, some .directory⟩ ↔
      fs.walk .through here (path.filter (· != ['.'])) = .arrived ⟨r, some .directory⟩) ∧
    ∀ stop target kept, (∃ rest, rest.filter (· != ['.']) = kept ∧
        fs.walk .through here path = .link stop target rest) ↔
      fs.walk .through here (path.filter (· != ['.'])) = .link stop target kept := by
  induction here, path using walk_induction with
  | nil here => simp [walk]
  | stay here path ih =>
    rw [List.filter_cons_of_neg (by simp), walk_here]
    exact ih
  | up here path ih =>
    rw [List.filter_cons_of_pos (by decide), walk_up, walk_up]
    exact ih
  | name here name path hdot hdots ih =>
    rw [List.filter_cons_of_pos (by simpa using hdot)]
    cases hshort : tooLong .through (here ++ [name]) with
    | true =>
      rw [walk_tooLong hdot hdots hshort, walk_tooLong hdot hdots hshort]
      simp
    | false =>
      rw [walk_name hdot hdots hshort, walk_name hdot hdots hshort]
      cases fs.node? (here ++ [name]) with
      | none => constructor <;> intros <;> split_ifs <;> simp
      | some found =>
        cases found with
        | directory => exact ih
        | link target =>
          simp only [reduceCtorEq, and_false, if_false, implies_true, true_and, Walk.link.injEq]
          intro stop target' kept
          constructor
          · rintro ⟨rest, rfl, rfl, rfl, rfl⟩
            exact ⟨rfl, rfl, rfl⟩
          · rintro ⟨rfl, rfl, rfl⟩
            exact ⟨path, rfl, rfl, rfl, rfl⟩
        | file content executable program => constructor <;> intros <;> split_ifs <;> simp

/-- **Idle steps** do not change which directory a whole walk ends in -/
theorem walkThrough_filter :
    fs.walkThrough .through links here path = .ok ⟨r, some .directory⟩ ↔
      fs.walkThrough .through links here (path.filter (· != ['.'])) =
        .ok ⟨r, some .directory⟩ := by
  induction links using Nat.strong_induction_on generalizing here path with
  | _ links ih =>
    have hbehind : ∀ fewer < links, ∀ stop target (rest : List Text),
        fs.walkThrough .through fewer stop (steps target ++ rest.filter (· != ['.'])) =
            .ok ⟨r, some .directory⟩ ↔
          fs.walkThrough .through fewer stop (steps target ++ rest) = .ok ⟨r, some .directory⟩ := by
      intro fewer hfewer stop target rest
      rw [ih fewer hfewer, List.filter_append, List.filter_filter]
      simp only [Bool.and_self]
      rw [← List.filter_append, ← ih fewer hfewer]
    obtain ⟨harrived, hlink⟩ := fs.walk_filter here path
    rw [walkThrough_eq_ok_iff, walkThrough_eq_ok_iff, harrived]
    refine or_congr Iff.rfl ⟨?_, ?_⟩
    · rintro ⟨fewer, stop, target, rest, rfl, hwalk, hrest⟩
      exact ⟨fewer, stop, target, _, rfl, (hlink _ _ _).1 ⟨rest, rfl, hwalk⟩,
        (hbehind fewer (Nat.lt_succ_self fewer) _ _ _).2 hrest⟩
    · rintro ⟨fewer, stop, target, kept, rfl, hwalk, hrest⟩
      obtain ⟨rest, rfl, hwhole⟩ := (hlink _ _ _).2 hwalk
      exact ⟨fewer, stop, target, rest, rfl, hwhole,
        (hbehind fewer (Nat.lt_succ_self fewer) _ _ _).1 hrest⟩

/-! ## Directories -/

section Directories

variable {q : Text} {before : List Text} {above : Route}

/-- a path with these steps and idle ones leads to the directory that they lead to -/
theorem find_of_steps (hq : Sayable q) (hseen : Path.isAbsolute q = Path.isAbsolute p)
    (hnames : Path.names q = before.filter (· != ['.']))
    (h : fs.walkThrough .through mostLinks (origin here p) before = .ok ⟨above, some .directory⟩) :
    fs.find here q = .ok (above, .directory) := by
  have horigin : origin here q = origin here p := by rw [origin, origin, hseen]
  refine find_of_place ?_
  rw [place_eq hq, walkThrough_filter, filter_steps, hnames, horigin, ← walkThrough_filter]
  exact h

theorem sayable_directory (hp : Sayable p) (hnames : Path.names p ≠ []) :
    Sayable (Path.directory p) := by
  obtain ⟨hne, hbegins | hhere, -, -⟩ := Path.directory_spec hnames
  · exact hp.begins hbegins hne
  · rw [hhere]
    exact ⟨by decide, by decide, by decide⟩

/-- **The directory of a path** is the one that holds what the path leads to. That is under the file
name of the path; it may be missing, and a link is not followed. -/
theorem find_directory (hnode : node ≠ some .directory)
    (h : fs.place here .upTo p = .ok ⟨r, node⟩) :
    ∃ above name, r = above ++ [name] ∧ Path.fileName? p = some name ∧
      fs.find here (Path.directory p) = .ok (above, .directory) := by
  have hp := sayable_of_place h
  rw [place_eq hp] at h
  rcases List.eq_nil_or_concat' (steps p) with hnil | ⟨before, name, hsteps⟩
  · rw [hnil, walkThrough_eq_ok_iff] at h
    simp [walk, hnode.symm] at h
  · rw [hsteps] at h
    obtain ⟨above, habove, hlast⟩ := walkThrough_last h
    obtain ⟨hdot, hdots, rfl⟩ :=
      (walk_singleton_spec hlast).resolve_right fun hidle => hnode hidle.2
    have hnames : Path.names p = before.filter (· != ['.']) ++ [name] := by
      rw [← filter_steps, hsteps, List.filter_append, List.filter_cons_of_pos (by simpa using hdot),
        List.filter_nil]
    have hne : Path.names p ≠ [] := by simp [hnames]
    obtain ⟨-, -, hdirectory, hseen⟩ := Path.directory_spec hne
    rw [hnames, List.dropLast_concat] at hdirectory
    refine ⟨above, name, rfl, ?_, find_of_steps (sayable_directory hp hne) hseen hdirectory habove⟩
    rw [Path.fileName?, hnames, List.getLast?_concat]
    exact if_neg hdots

/-- **A normal name** that is joined to a path leads into the directory of that path, and no further -/
theorem find_of_place_join (hname : Path.IsNormal name) (hp : p ≠ [])
    (h : fs.place here .upTo (Path.join p name) = .ok ⟨r, node⟩) :
    ∃ above, r = above ++ [name] ∧ fs.find here p = .ok (above, .directory) := by
  have hjoin := sayable_of_place h
  have hsteps : steps (Path.join p name) = Path.pieces p ++ [name] := by
    rw [steps_join hname.nonempty hname.relative, steps_name hname.nonempty hname.no_slash]
  rw [place_eq hjoin, hsteps, origin_join hname.relative] at h
  obtain ⟨above, habove, hstep⟩ := walkThrough_last h
  obtain ⟨-, -, rfl⟩ := (walk_singleton_spec hstep).resolve_right fun hidle =>
    hidle.1.elim hname.not_here hname.not_above
  exact ⟨above, rfl, find_of_steps (hjoin.begins (Path.begins_join hname.relative p) hp) rfl
    (Path.names_eq p) habove⟩

end Directories

end CodeCache.FileSystem
