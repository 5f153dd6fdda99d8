/-
Path texts and the names in them.

What the file system goes through (`steps`) and what the path functions take apart (`names`,
`cutName`) come from the same cut at slashes. The laws here say what both of them give for the two
kinds of texts that a compile produces.
- `steps_join`: what is joined to a path comes behind its pieces, so a file name is the last step
  (`exists_steps_join`).
- `steps_text`, `fileName?_text`: the absolute path of a place reads back as the place.
- `cutName_append`: a stem and an extension are taken apart at the last point of the extension,
  whatever points the stem has.

The sizes (`extent_steps_le`) are those that an operating system bounds.
-/
import CodeCache.Proofs.Text.Cutting
import CodeCache.Proofs.Text.Utf8
import CodeCache.System.FileSystem

namespace CodeCache

/-- each piece with one byte for the slash in front of it, and one slash too many -/
theorem Text.size_splitOn (t : Text) :
    ((splitOn '/' t).map fun piece => Utf8.size piece + 1).sum = Utf8.size t + 1 := by
  rw [splitOn_eq]
  induction t with
  | nil => rfl
  | cons c t ih =>
    have hsize : Utf8.size (c :: t) = Utf8.sizeOf c + Utf8.size t := by simp [Utf8.size_eq_sum]
    rw [List.splitOn_cons_eq_if_modifyHead, hsize]
    split_ifs with hc
    · rw [List.map_cons, List.sum_cons, ih, beq_iff_eq.1 hc]
      rfl
    · obtain ⟨first, pieces, hsplit⟩ := List.exists_cons_of_ne_nil (List.splitOn_ne_nil '/' t)
      have hfirst : Utf8.size (c :: first) = Utf8.sizeOf c + Utf8.size first := by
        simp [Utf8.size_eq_sum]
      rw [hsplit, List.map_cons, List.sum_cons] at ih
      rw [hsplit, List.modifyHead_cons, List.map_cons, List.sum_cons, hfirst]
      omega

/-! ## Names -/

namespace Route

/-- a name that a directory can hold -/
@[mk_iff]
structure IsName (name : Text) : Prop where
  nonempty : name ≠ []
  not_here : name ≠ ['.']
  not_above : name ≠ ['.', '.']
  no_slash : '/' ∉ name
  no_nul : '\x00' ∉ name
  short : Utf8.size name ≤ FileSystem.longestName

instance (name : Text) : Decidable (IsName name) := decidable_of_iff' _ (isName_iff name)

/-- the bytes of a path of these names, each with a slash in front -/
def extent (r : Route) : Nat := (r.map fun name => Utf8.size name + 1).sum

theorem extent_append (r s : Route) : extent (r ++ s) = extent r + extent s := by
  simp [extent]

theorem text_eq_intercalate {r : Route} (h : r ≠ []) : text r = '/' :: ['/'].intercalate r := by
  rw [text, if_neg (by simpa using h)]
  induction r with
  | nil => exact absurd rfl h
  | cons name r ih =>
    cases r with
    | nil => simp
    | cons other r =>
      rw [List.flatMap_cons, ih (List.cons_ne_nil _ _), List.intercalate_cons_cons]
      simp

theorem text_append_singleton (r : Route) (name : Text) :
    ∃ before, text (r ++ [name]) = before ++ '/' :: name := by
  refine ⟨r.flatMap fun name => '/' :: name, ?_⟩
  rw [text, if_neg (by simp), List.flatMap_append]
  simp

theorem size_text {r : Route} (h : r ≠ []) : Utf8.size (text r) = extent r := by
  have hslash : Utf8.sizeOf '/' = 1 := by decide
  rw [text, if_neg (by simpa using h), extent]
  clear h
  induction r with
  | nil => rfl
  | cons name r ih =>
    rw [List.flatMap_cons, Utf8.size_append, ih, List.map_cons, List.sum_cons,
      Utf8.size_eq_sum ('/' :: name), List.map_cons, List.sum_cons, hslash, ← Utf8.size_eq_sum]
    omega

theorem extent_le_size_text (r : Route) : extent r ≤ Utf8.size (text r) := by
  by_cases h : r = []
  · subst h
    exact Nat.zero_le _
  · exact (size_text h).ge

theorem isAbsolute_text (r : Route) : Path.isAbsolute (text r) = true := by
  by_cases h : r = []
  · subst h
    rfl
  · rw [text_eq_intercalate h]
    rfl

theorem splitOn_text {r : Route} (h : r ≠ []) (hr : ∀ name ∈ r, IsName name) :
    Text.splitOn '/' (['/'].intercalate r) = r := by
  rw [Text.splitOn_eq, List.splitOn_intercalate '/' (fun name hname => (hr name hname).no_slash) h]

theorem no_nul_text {r : Route} (hr : ∀ name ∈ r, IsName name) : '\x00' ∉ text r := by
  unfold text
  split_ifs
  · decide
  · rw [List.mem_flatMap]
    rintro ⟨name, hname, hmem⟩
    rcases List.mem_cons.1 hmem with hslash | hmem
    · exact absurd hslash (by decide)
    · exact (hr name hname).no_nul hmem

end Route

/-! ## Steps -/

namespace FileSystem

theorem getLast?_ne_slash {name : Text} (h : name ≠ []) (hslash : '/' ∉ name) (before : Text) :
    (before ++ '/' :: name).getLast? ≠ some '/' := by
  intro hlast
  have hmem : '/' ∈ name := by
    refine List.mem_of_getLast? (l := name) ?_
    rwa [List.getLast?_append_of_ne_nil _ (List.cons_ne_nil _ _),
      List.getLast?_cons_of_ne_nil h] at hlast
  exact hslash hmem

theorem mem_steps {p name : Text} (h : name ∈ steps p) :
    name ≠ [] ∧ '/' ∉ name ∧ ('\x00' ∉ p → '\x00' ∉ name) := by
  rcases List.mem_append.1 h with h | h
  · obtain ⟨hmem, hne⟩ := List.mem_filter.1 h
    have hc := Text.mem_of_mem_splitOn hmem
    exact ⟨by simpa using hne, fun hs => (hc _ hs).2 rfl, fun hp hn => hp (hc _ hn).1⟩
  · have hdot : name = ['.'] := by
      split_ifs at h
      · exact List.mem_singleton.1 h
      · exact absurd h List.not_mem_nil
    subst hdot
    exact ⟨by decide, by decide, fun _ => by decide⟩

/-- the absolute path of a place leads through the names of the place -/
theorem steps_text {r : Route} (h : r ≠ []) (hr : ∀ name ∈ r, Route.IsName name) :
    steps (Route.text r) = r := by
  have hlast : (Route.text r).getLast? ≠ some '/' := by
    obtain ⟨init, name, rfl⟩ := (List.eq_nil_or_concat' r).resolve_left h
    obtain ⟨before, hbefore⟩ := Route.text_append_singleton init name
    have hname := hr name (by simp)
    rw [hbefore]
    exact getLast?_ne_slash hname.nonempty hname.no_slash before
  have hfilter : r.filter (· != []) = r :=
    List.filter_eq_self.2 fun name hname => by simpa using (hr name hname).nonempty
  have hcut : Text.splitOn '/' (Route.text r) = [] :: r := by
    rw [Route.text_eq_intercalate h, Text.splitOn_eq, List.splitOn_cons_eq_if_modifyHead,
      if_pos (by decide), ← Text.splitOn_eq, Route.splitOn_text h hr]
  rw [steps, hcut, List.filter_cons_of_neg (by decide), hfilter, if_neg (by simpa using hlast),
    List.append_nil]

end FileSystem

/-! ## Joining -/

namespace Path

/-- what stands between the slashes of a path -/
def pieces (p : Text) : List Text := (Text.splitOn '/' p).filter (· != [])

theorem pieces_append_slash (p q : Text) : pieces (p ++ '/' :: q) = pieces p ++ pieces q := by
  rw [pieces, pieces, pieces, Text.splitOn_eq, List.splitOn_append_cons_self, List.filter_append,
    Text.splitOn_eq, Text.splitOn_eq]

/-- a relative path is joined behind a slash -/
theorem exists_join_eq {p q : Text} (hq : isAbsolute q = false) (hp : p ≠ []) :
    ∃ before, join p q = before ++ '/' :: q ∧ pieces p = pieces before := by
  rw [join, if_neg (by simp [hq])]
  split_ifs with hend
  · have hlast : p.getLast? = some '/' := by simpa [hp] using hend
    obtain ⟨before, rfl⟩ := List.getLast?_eq_some_iff.1 hlast
    refine ⟨before, by simp, ?_⟩
    rw [pieces_append_slash]
    exact List.append_nil _
  · exact ⟨p, rfl, rfl⟩

theorem join_nil_left (q : Text) : join [] q = q := by simp [join]

theorem isAbsolute_of_no_slash {p : Text} (h : '/' ∉ p) : isAbsolute p = false := by
  cases p with
  | nil => rfl
  | cons c p => simpa [isAbsolute] using (List.ne_of_not_mem_cons h).symm

end Path

namespace FileSystem

theorem steps_eq (p : Text) :
    steps p = Path.pieces p ++ if p.getLast? == some '/' then [['.']] else [] := rfl

/-- what is joined to a path comes behind its pieces -/
theorem steps_join {q : Text} (hne : q ≠ []) (hq : Path.isAbsolute q = false) (p : Text) :
    steps (Path.join p q) = Path.pieces p ++ steps q := by
  by_cases hp : p = []
  · subst hp
    rw [Path.join_nil_left]
    rfl
  · obtain ⟨before, hjoin, hpieces⟩ := Path.exists_join_eq hq hp
    have hlast : (before ++ '/' :: q).getLast? = q.getLast? := by
      rw [List.getLast?_append_of_ne_nil _ (List.cons_ne_nil _ _), List.getLast?_cons_of_ne_nil hne]
    have hcut := Path.pieces_append_slash before q
    rw [hjoin, hpieces, steps, steps, hlast, ← List.append_assoc]
    exact congrArg (· ++ _) hcut

/-- a file name is one step -/
theorem steps_name {name : Text} (h : name ≠ []) (hslash : '/' ∉ name) : steps name = [name] := by
  have hlast : name.getLast? ≠ some '/' := fun hl => hslash (List.mem_of_getLast? hl)
  rw [steps, Text.splitOn_eq, List.splitOn_eq_singleton hslash,
    List.filter_cons_of_pos (by simpa using h), List.filter_nil, if_neg (by simpa using hlast),
    List.append_nil]

/-- a file name is the last step of its path in a directory -/
theorem exists_steps_join {name : Text} (h : name ≠ []) (hslash : '/' ∉ name) (base : Text) :
    ∃ before, steps (Path.join base name) = before ++ [name] :=
  ⟨_, by rw [steps_join h (Path.isAbsolute_of_no_slash hslash), steps_name h hslash]⟩

/-- the steps that are names, each with a slash, are no longer than the path; a relative path lacks
the first slash -/
theorem extent_steps_le (p : Text) :
    Route.extent ((steps p).filter (· != ['.'])) + (if Path.isAbsolute p then 1 else 0) ≤
      Utf8.size p + 1 := by
  have hsub : ∀ q : Text, Route.extent (((Text.splitOn '/' q).filter (· != [])).filter
      (· != ['.'])) ≤ Utf8.size q + 1 := by
    intro q
    rw [← Text.size_splitOn q]
    exact (((List.filter_sublist.trans List.filter_sublist).map _)).sum_le_sum fun _ _ =>
      Nat.zero_le _
  have hdot : Route.extent ((steps p).filter (· != ['.'])) =
      Route.extent (((Text.splitOn '/' p).filter (· != [])).filter (· != ['.'])) := by
    rw [steps, List.filter_append, Route.extent_append]
    split_ifs <;> rfl
  rw [hdot]
  split_ifs with habs
  · obtain ⟨q, rfl⟩ : ∃ q, p = '/' :: q := by
      cases p with
      | nil => cases habs
      | cons c q => exact ⟨q, by simpa [Path.isAbsolute] using habs⟩
    have hcut : Text.splitOn '/' ('/' :: q) = [] :: Text.splitOn '/' q := rfl
    have hsize : Utf8.size ('/' :: q) = 1 + Utf8.size q := by
      have hslash : Utf8.sizeOf '/' = 1 := by decide
      simp [Utf8.size_eq_sum, hslash]
    rw [hcut, List.filter_cons_of_neg (by decide), hsize]
    have := hsub q
    omega
  · exact hsub p

end FileSystem

/-! ## Stems and extensions -/

namespace Path

theorem fileName?_text {r : Route} {name : Text} (hr : ∀ n ∈ r ++ [name], Route.IsName n) :
    fileName? (Route.text (r ++ [name])) = some name := by
  have hne : r ++ [name] ≠ [] := by simp
  have hlead : lead (Route.text (r ++ [name])) = (['/'], ['/'].intercalate (r ++ [name])) := by
    rw [Route.text_eq_intercalate hne]
    rfl
  have hnames : names (Route.text (r ++ [name])) = r ++ [name] := by
    rw [names, hlead, Route.splitOn_text hne hr]
    apply List.filter_eq_self.2
    intro n hn
    simp [isIdle, (hr n hn).nonempty, (hr n hn).not_here]
  rw [fileName?, hnames, List.getLast?_concat]
  exact if_neg (hr name (by simp)).not_above

/-- the points of the stem do not matter: a name is cut where its end is -/
theorem cutName_append {stem ending before after : Text} (h : stem ≠ [])
    (hcut : Text.splitLast? '.' ending = some (before, after)) :
    cutName (stem ++ ending) = (stem ++ before, some after) := by
  rw [cutName, Text.splitLast?_append_of_some hcut]
  simp [h]

/-- what has a file name has a stem -/
theorem exists_stem? {p : Text} (h : (fileName? p).isSome) : ∃ stem, stem? p = some stem := by
  rw [← Option.isSome_iff_exists, stem?, Option.isSome_map]
  exact h

theorem names_eq_filter_splitOn (p : Text) :
    names p = (Text.splitOn '/' p).filter fun name => !isIdle name := by
  unfold names lead
  split <;> rfl

/-- the characters of a stem are from one piece of the path -/
theorem mem_of_mem_stem? {p stem : Text} (h : stem? p = some stem) :
    stem ≠ [] ∧ ∀ c ∈ stem, c ∈ p ∧ c ≠ '/' := by
  obtain ⟨name, hname, rfl⟩ := Option.map_eq_some_iff.1 h
  have hmem : name ∈ names p := by
    unfold fileName? at hname
    cases hlast : (names p).getLast? with
    | none => rw [hlast] at hname; cases hname
    | some last =>
      rw [hlast] at hname
      simp only [Option.ite_none_left_eq_some, Option.some.injEq] at hname
      exact hname.2 ▸ List.mem_of_getLast? hlast
  rw [names_eq_filter_splitOn] at hmem
  obtain ⟨hpiece, hidle⟩ := List.mem_filter.1 hmem
  have hne : name ≠ [] := by
    rintro rfl
    exact absurd hidle (by decide)
  have hin : ∀ c ∈ name, c ∈ p ∧ c ≠ '/' := Text.mem_of_mem_splitOn hpiece
  unfold cutName
  cases hcut : Text.splitLast? '.' name with
  | none => exact ⟨hne, hin⟩
  | some cut =>
    obtain ⟨before, after⟩ := cut
    have heq := Text.eq_of_splitLast? hcut
    by_cases hb : before = []
    · simpa [hb] using And.intro hne hin
    · have hsub : ∀ c ∈ before, c ∈ p ∧ c ≠ '/' := fun c hc => hin c (heq ▸ List.mem_append_left _ hc)
      simpa [hb] using hsub

theorem stem?_spec {p stem : Text} (h : stem? p = some stem) : stem ≠ [] ∧ '/' ∉ stem := by
  obtain ⟨hne, hin⟩ := mem_of_mem_stem? h
  exact ⟨hne, fun hslash => (hin '/' hslash).2 rfl⟩

end Path

end CodeCache
