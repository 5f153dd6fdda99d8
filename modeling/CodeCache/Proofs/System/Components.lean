/-
Paths as components.

Two spellings of one path have the same components: repeated slashes, a slash at the end and every
`.` but the one a path begins with leave none. So the components, and not the text, say what a path
is.
- `components_join_name`: a name that is joined to a path is its last component, and the rest is
  the path, whatever its text ends with.
- `components_directory`: the directory of a file is its path without the last component, and `.`
  where nothing is left of it.
-/
import CodeCache.Proofs.System.Ancestors

namespace CodeCache.Path

/-- what a path is made of -/
inductive Component where
  /-- the slash of an absolute path -/
  | root
  /-- a `.` at the beginning -/
  | here
  /-- a `..` -/
  | above
  /-- a normal name -/
  | name (text : Text)
deriving DecidableEq, Repr

/-- the component of a name that means something -/
def Component.ofName (name : Text) : Component := if name = ['.', '.'] then .above else .name name

/-- what a path begins with, besides names -/
def start (p : Text) : List Component :=
  if isAbsolute p then [.root]
  else if (Text.splitOn '/' p).head? = some ['.'] then [.here]
  else []

/-- the components of a path, from left to right -/
def components (p : Text) : List Component := start p ++ (names p).map Component.ofName

variable {p q name : Text}

/-! ## Starts -/

theorem start_of_isAbsolute (h : isAbsolute p = true) : start p = [.root] := if_pos h

theorem start_of_relative (h : isAbsolute p = false) :
    start p = if (Text.splitOn '/' p).head? = some ['.'] then [.here] else [] :=
  if_neg (by simp [h])

/-- what comes behind a slash leaves the start as it is -/
theorem start_append_slash (hp : p ≠ []) (q : Text) : start (p ++ '/' :: q) = start p := by
  have hhead : (Text.splitOn '/' (p ++ '/' :: q)).head? = (Text.splitOn '/' p).head? := by
    rw [Text.splitOn_eq, List.splitOn_append_cons_self, Text.splitOn_eq,
      List.head?_append_of_ne_nil _ (List.splitOn_ne_nil '/' p)]
  rw [start, start, isAbsolute_append hp, hhead]

theorem start_join (hp : p ≠ []) (hq : isAbsolute q = false) : start (join p q) = start p := by
  rw [join_relative hq]
  split_ifs with hend
  · obtain ⟨before, rfl⟩ := List.getLast?_eq_some_iff.1 (hend.resolve_left hp)
    by_cases hbefore : before = []
    · subst hbefore
      rfl
    · rw [List.append_assoc, List.singleton_append, start_append_slash hbefore,
        start_append_slash hbefore]
  · exact start_append_slash hp q

/-- only the empty path has no components: a text in front of the first slash is a name or a `.` -/
theorem components_eq_nil_iff : components p = [] ↔ p = [] := by
  constructor
  · intro h
    obtain ⟨hstart, hnames⟩ := List.append_eq_nil_iff.1 h
    rw [List.map_eq_nil_iff, names_eq_filter_splitOn, List.filter_eq_nil_iff] at hnames
    have hrelative : isAbsolute p = false := by
      by_contra habsolute
      rw [start_of_isAbsolute (by simpa using habsolute)] at hstart
      cases hstart
    obtain ⟨first, pieces, hpieces⟩ : ∃ first pieces, Text.splitOn '/' p = first :: pieces :=
      List.exists_cons_of_ne_nil (by rw [Text.splitOn_eq]; exact List.splitOn_ne_nil '/' p)
    have hidle : first = [] ∨ first = ['.'] := by
      simpa [isIdle, or_iff_not_imp_left] using
        hnames first (by rw [hpieces]; exact List.mem_cons_self)
    rcases hidle with rfl | rfl
    · rw [← Text.join_splitOn '/' p, hpieces] at hrelative ⊢
      cases pieces with
      | nil => rfl
      | cons next pieces => cases hrelative
    · rw [start_of_relative hrelative, hpieces] at hstart
      cases hstart
  · rintro rfl
    rfl

/-! ## Joined names -/

/-- a text is a path of one normal component -/
structure IsNormal (name : Text) : Prop where
  nonempty : name ≠ []
  no_slash : '/' ∉ name
  not_here : name ≠ ['.']
  not_above : name ≠ ['.', '.']

namespace IsNormal

theorem relative (h : IsNormal name) : isAbsolute name = false := isAbsolute_of_no_slash h.no_slash

theorem splitOn_eq (h : IsNormal name) : Text.splitOn '/' name = [name] := by
  rw [Text.splitOn_eq, List.splitOn_eq_singleton h.no_slash]

theorem names_eq (h : IsNormal name) : names name = [name] :=
  names_name h.nonempty h.no_slash h.not_here

theorem start_eq (h : IsNormal name) : start name = [] := by
  rw [start_of_relative h.relative, h.splitOn_eq, List.head?_cons, if_neg (by simpa using h.not_here)]

theorem components_eq (h : IsNormal name) : components name = [.name name] := by
  rw [components, h.start_eq, h.names_eq, List.nil_append, List.map_singleton, Component.ofName,
    if_neg h.not_above]

end IsNormal

theorem components_join_name (h : IsNormal name) (p : Text) :
    components (join p name) = components p ++ [.name name] := by
  by_cases hp : p = []
  · subst hp
    rw [join_nil_left, h.components_eq]
    rfl
  · rw [components, start_join hp h.relative, names_join h.relative, h.names_eq, List.map_append,
      List.map_singleton, Component.ofName, if_neg h.not_above, components, List.append_assoc]

/-! ## Directories -/

/-- a path that begins with a `.`, alone or in front of a slash -/
theorem start_here {rest : Text} (h : rest = [] ∨ ∃ more, rest = '/' :: more) :
    start (['.'] ++ rest) = [.here] := by
  rcases h with rfl | ⟨more, rfl⟩ <;> rfl

theorem lead_of_here (h : (Text.splitOn '/' p).head? = some ['.']) : (lead p).1 = ['.'] := by
  obtain ⟨pieces, hpieces⟩ := List.head?_eq_some_iff.1 h
  rw [← Text.join_splitOn '/' p, hpieces]
  cases pieces <;> rfl

/-- what is left in front of the last name begins as the whole path does -/
theorem start_parent? (h : parent? p = some q) (hp : names p ≠ []) : start q = start p := by
  obtain ⟨hwhole, hlead⟩ := lead_spec p
  have habsolute := (parent?_spec h).2.2.2.1
  unfold parent? at h
  cases hcut : (Text.splitOn '/' (lead p).2).reverse.dropWhile isIdle with
  | nil => exact absurd (names_of_idle hcut) hp
  | cons last before =>
    simp only [hcut, Option.some.injEq] at h
    obtain ⟨hkept, -, -⟩ := cutPieces hcut
    generalize (before.dropWhile isIdle).reverse = kept at h hkept
    rcases hlead with hslash | ⟨hdot, hrest⟩ | ⟨hnone, hrelative⟩
    · have hroot : isAbsolute p = true := by rw [hwhole, hslash]; rfl
      rw [start_of_isAbsolute hroot, start_of_isAbsolute (habsolute.trans hroot)]
    · have hbegins : Text.join ['/'] kept <+: (lead p).2 := Text.join_begins_of_splitOn hkept
      rw [hwhole, ← h, hdot, start_here hrest]
      refine start_here ?_
      rcases hrest with hnil | ⟨more, hmore⟩
      · exact .inl (List.prefix_nil.1 (hnil ▸ hbegins))
      · rw [hmore, List.prefix_cons_iff] at hbegins
        exact hbegins.imp_right fun ⟨rest, hrest, _⟩ => ⟨rest, hrest⟩
    · have hp : (Text.splitOn '/' p).head? ≠ some ['.'] := fun hhere => by
        rw [lead_of_here hhere] at hnone
        cases hnone
      have hbody : (lead p).2 = p := by rw [hnone] at hwhole; exact hwhole.symm
      rw [start_of_relative hrelative, if_neg hp]
      by_cases hempty : kept = []
      · rw [← h, hnone, hempty]
        rfl
      · rw [hbody] at hkept
        have hcut : Text.splitOn '/' q = kept := by
          rw [← h, hnone]
          exact Text.splitOn_join hempty fun piece hpiece hs =>
            (Text.mem_of_mem_splitOn (hkept.subset hpiece) _ hs).2 rfl
        have hhead : kept.head? = (Text.splitOn '/' p).head? := by
          obtain ⟨more, hmore⟩ := hkept
          rw [← hmore, List.head?_append_of_ne_nil _ hempty]
        rw [start_of_relative (habsolute.trans hrelative), hcut, hhead, if_neg hp]

/-- **Directories of files**: the names of a file's directory are those in front of its own, and it
is seen from the same place -/
theorem directory_spec (hp : names p ≠ []) :
    directory p ≠ [] ∧ (directory p <+: p ∨ directory p = ['.']) ∧
      names (directory p) = (names p).dropLast ∧ isAbsolute (directory p) = isAbsolute p := by
  obtain ⟨q, hq⟩ := exists_parent? hp
  obtain ⟨hbegins, -, hnames, habsolute, -⟩ := parent?_spec hq
  simp only [directory, hq, List.isEmpty_iff]
  split_ifs with hempty
  · subst hempty
    exact ⟨by decide, .inr rfl, hnames, habsolute⟩
  · exact ⟨hempty, .inl hbegins, hnames, habsolute⟩

/-- the directory of a file has the components in front of the last one, or is `.` -/
theorem components_directory (hp : names p ≠ []) :
    components (directory p) =
      if (components p).dropLast = [] then [.here] else (components p).dropLast := by
  obtain ⟨q, hq⟩ := exists_parent? hp
  obtain ⟨-, -, hnames, -, -⟩ := parent?_spec hq
  have hcomponents : (components p).dropLast = components q := by
    rw [components, List.dropLast_append_of_ne_nil (by simpa using hp), ← List.map_dropLast, ← hnames,
      ← start_parent? hq hp, components]
  simp only [hcomponents, components_eq_nil_iff, directory, hq, List.isEmpty_iff]
  split_ifs with hempty <;> rfl

end CodeCache.Path
