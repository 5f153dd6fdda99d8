/-
File systems through which all paths go the same way.

A walk asks of a place only whether it goes on there: it enters directories and follows links, and at
a file it ends as where there is nothing. So writing a file changes no way (`Lands.sameWays`), and a
path that a file can be written under leads to the same place in all file systems with these ways
(`SameWays.lands`).

Main result, `write_without`: a write leaves the same file without another write before it, and what
that one wrote is all that differs.
-/
import CodeCache.Proofs.System.Links

namespace CodeCache.FileSystem

/-! ## Ways -/

/-- what a walk makes of a place: files are its end, and so is nothing -/
def wayOf : Option Node → Option Node
  | some (.file ..) => none
  | node => node

/-- walks go on everywhere in the same way -/
def SameWays (fs fs' : FileSystem) : Prop := ∀ r, wayOf (fs.node? r) = wayOf (fs'.node? r)

/-- walks that come to the same place, or stop at the same link; both may fail, for any reasons -/
inductive Walk.Alike : Walk → Walk → Prop where
  | arrived {r node node'} :
    wayOf node = wayOf node' → Alike (.arrived ⟨r, node⟩) (.arrived ⟨r, node'⟩)
  | link {stop target rest} : Alike (.link stop target rest) (.link stop target rest)
  | failed {e e'} : Alike (.failed e) (.failed e')

theorem Walk.Alike.refl : (walk : Walk) → walk.Alike walk
  | .arrived _ => .arrived rfl
  | .link .. => .link
  | .failed _ => .failed

variable {fs fs' : FileSystem} {manner : Manner} {here r : Route} {p name : Text}
  {path : List Text} {node node' : Option Node}

theorem eq_of_wayOf {n : Node} (h : wayOf node = some n) : node = some n := by
  unfold wayOf at h
  split at h
  · cases h
  · exact h

/-- places are taken alike if they hold the same, or both are an end -/
theorem eq_or_ends_of_wayOf (h : wayOf node = wayOf node') :
    node = node' ∨ wayOf node = none ∧ wayOf node' = none := by
  cases hway : wayOf node with
  | none => exact .inr ⟨rfl, h ▸ hway⟩
  | some n =>
    have hway' : wayOf node' = some n := h ▸ hway
    exact .inl ((eq_of_wayOf hway).trans (eq_of_wayOf hway').symm)

/-- at an end a walk arrives by its last step, and fails by any other -/
theorem walk_end (hdot : name ≠ ['.']) (hdots : name ≠ ['.', '.'])
    (hshort : tooLong manner (here ++ [name]) = false)
    (hend : wayOf (fs.node? (here ++ [name])) = none) (rest : List Text) :
    ∃ e, fs.walk manner here (name :: rest) =
      if rest = [] then .arrived ⟨here ++ [name], fs.node? (here ++ [name])⟩ else .failed e := by
  rw [walk_name hdot hdots hshort]
  cases hn : fs.node? (here ++ [name]) with
  | none => exact ⟨_, rfl⟩
  | some found =>
    rw [hn] at hend
    cases found with
    | file content executable program => exact ⟨_, rfl⟩
    | directory => cases hend
    | link target => cases hend

theorem SameWays.walk (h : SameWays fs fs') (manner : Manner) (here : Route) (path : List Text) :
    (fs.walk manner here path).Alike (fs'.walk manner here path) := by
  induction here, path using walk_induction with
  | nil here => exact .refl _
  | stay here rest ih => simpa only [walk_here] using ih
  | up here rest ih => simpa only [walk_up] using ih
  | name here name rest hdot hdots ih =>
    cases hshort : tooLong manner (here ++ [name]) with
    | true =>
      rw [walk_tooLong hdot hdots hshort, walk_tooLong hdot hdots hshort]
      exact .failed
    | false =>
      rcases eq_or_ends_of_wayOf (h (here ++ [name])) with hsame | ⟨hend, hend'⟩
      · rw [walk_name hdot hdots hshort, walk_name hdot hdots hshort, ← hsame]
        cases fs.node? (here ++ [name]) with
        | none => exact .refl _
        | some found =>
          cases found with
          | directory => exact ih
          | link target => exact .refl _
          | file content executable program => exact .refl _
      · obtain ⟨e, hwalk⟩ := walk_end hdot hdots hshort hend rest
        obtain ⟨e', hwalk'⟩ := walk_end hdot hdots hshort hend' rest
        rw [hwalk, hwalk']
        split_ifs
        · exact .arrived (hend.trans hend'.symm)
        · exact .failed

/-- whole walks, by their stretches -/
theorem SameWays.walkThrough (h : SameWays fs fs') {links : Nat}
    (hwalk : fs.walkThrough manner links here path = .ok ⟨r, node⟩) :
    ∃ node', fs'.walkThrough manner links here path = .ok ⟨r, node'⟩ ∧ wayOf node = wayOf node' := by
  induction links using Nat.strong_induction_on generalizing here path with
  | _ links ih =>
    have halike := h.walk manner here path
    rcases walkThrough_eq_ok_iff.1 hwalk with hfirst | ⟨fewer, stop, target, rest, rfl, hfirst, hrest⟩
    · rw [hfirst] at halike
      generalize hfirst' : fs'.walk manner here path = walk' at halike
      cases halike with
      | arrived hnode => exact ⟨_, walkThrough_eq_ok_iff.2 (.inl hfirst'), hnode⟩
    · rw [hfirst] at halike
      generalize hfirst' : fs'.walk manner here path = walk' at halike
      cases halike
      obtain ⟨node', hrest', hnode⟩ := ih fewer (Nat.lt_succ_self fewer) hrest
      exact ⟨node', walkThrough_eq_ok_iff.2 (.inr ⟨fewer, stop, target, rest, rfl, hfirst', hrest'⟩),
        hnode⟩

/-! ## Files written -/

theorem Lands.wayOf_eq (h : fs.Lands here p r) : wayOf (fs.node? r) = none := by
  rcases h.node?_eq with hnone | ⟨content, executable, program, hfile⟩
  · rw [hnone]
    rfl
  · rw [hfile]
    rfl

/-- a path that a file can be written under leads to the same place wherever walks go the same way -/
theorem SameWays.lands (h : SameWays fs fs') (hlands : fs.Lands here p r) : fs'.Lands here p r := by
  have hp := sayable_of_place hlands.place
  have hplace := hlands.place
  rw [place_eq hp] at hplace
  obtain ⟨node', hplace', hnode⟩ := h.walkThrough hplace
  rw [← place_eq hp] at hplace'
  refine lands_of_place hplace' ?_
  rintro rfl
  rw [hlands.wayOf_eq] at hnode
  cases hnode

theorem Lands.find {n : Node} (h : fs.Lands here p r) (hn : fs.node? r = some n) :
    fs.find here p = .ok (r, n) := by
  have hplace := h.place
  rw [hn] at hplace
  exact find_of_place hplace

/-- no way changes when a file is put where a path lands -/
theorem Lands.sameWays (h : fs.Lands here p r) (content : Bytes) (executable : Bool)
    (program : Option Program) : SameWays fs (fs.put r (.file content executable program)) := by
  intro q
  rw [node?_put h.ne_nil]
  split_ifs with hq
  · rw [hq, h.wayOf_eq]
    rfl
  · rfl

/-- a file is found where it was put -/
theorem Lands.find_put (h : fs.Lands here p r) (content : Bytes) (executable : Bool)
    (program : Option Program) :
    (fs.put r (.file content executable program)).find here p =
      .ok (r, .file content executable program) :=
  ((h.sameWays content executable program).lands h).find (by rw [node?_put h.ne_nil, if_pos rfl])

/-- what a write leaves may be executed as what was there before, and so for all other places -/
theorem mayExecute_put (hr : r ≠ []) (content : Bytes) (q : Route) :
    mayExecute ((fs.put r (.file content (mayExecute (fs.node? r)) none)).node? q) =
      mayExecute (fs.node? q) := by
  rw [node?_put hr]
  split_ifs with hq
  · rw [hq]
    rfl
  · rfl

/-- they are the same but for the file that the path leads to -/
def SameBut (fs fs' : FileSystem) (here : Route) (p : Text) : Prop :=
  ∃ r n, fs.find here p = .ok (r, n) ∧ ∀ q, q ≠ r → fs.node? q = fs'.node? q

/-- **Writes without those before them**: a write that succeeds behind another one succeeds without
it. It leaves the same file at the same place, and nothing differs but what the other one wrote. -/
theorem write_without {q : Text} {before content : Bytes} {fs₁ fs₂ : FileSystem}
    (hbefore : fs.write here q before = .ok fs₁) (hwrite : fs₁.write here p content = .ok fs₂) :
    ∃ fs₂' r executable, fs.write here p content = .ok fs₂' ∧
      fs₂.find here p = .ok (r, .file content executable none) ∧
      fs₂'.find here p = .ok (r, .file content executable none) ∧ fs₂.SameBut fs₂' here q := by
  obtain ⟨s, hs, rfl⟩ := write_eq_ok_iff.1 hbefore
  obtain ⟨r, hr₁, rfl⟩ := write_eq_ok_iff.1 hwrite
  rw [mayExecute_put hs.ne_nil]
  set old : Node := .file before (mayExecute (fs.node? s)) none
  set new : Node := .file content (mayExecute (fs.node? r)) none
  have hways : SameWays fs (fs.put s old) := hs.sameWays _ _ _
  have hr : fs.Lands here p r := SameWays.lands (fun place => (hways place).symm) hr₁
  refine ⟨fs.put r new, r, mayExecute (fs.node? r), hr.write content, hr₁.find_put _ _ _,
    hr.find_put _ _ _, s, if s = r then new else old, ?_, ?_⟩
  · -- the other path still leads to its place, where there is one of both files
    have hs₂ : ((fs.put s old).put r new).Lands here q s :=
      (hr₁.sameWays _ _ _).lands (hways.lands hs)
    apply hs₂.find
    rw [node?_put hr.ne_nil, node?_put hs.ne_nil, if_pos rfl]
    split_ifs <;> rfl
  · intro place hplace
    rw [node?_put hr.ne_nil, node?_put hs.ne_nil, if_neg hplace, node?_put hr.ne_nil]

end CodeCache.FileSystem
