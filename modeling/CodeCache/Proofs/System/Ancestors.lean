/-
The paths above a path, by their texts.

A path is the names between its slashes. Its parent is a beginning of its text that lacks the last
name (`parent?_spec`), so the paths above it have the beginnings of its names, the longest first
(`findSome?_ancestors`). What is joined to a path comes behind its names (`names_join`). Above the
path of a place are the paths of the places above it (`ancestors_text`).
-/
import CodeCache.Proofs.System.PathTexts

namespace CodeCache

/-! ## Lists without their first items -/

section DropWhile

variable {α : Type} (p : α → Bool)

theorem filter_dropWhile_not (l : List α) :
    (l.dropWhile p).filter (fun x => !p x) = l.filter fun x => !p x := by
  induction l with
  | nil => rfl
  | cons x l ih =>
    cases hx : p x with
    | false => rw [List.dropWhile_cons_of_neg (by simp [hx])]
    | true => rw [List.dropWhile_cons_of_pos hx, ih, List.filter_cons_of_neg (by simp [hx])]

theorem head_dropWhile_not {l rest : List α} {x : α} (h : l.dropWhile p = x :: rest) :
    p x = false := by
  have hhead := List.head_dropWhile_not p (l := l) (by simp [h])
  simpa [h] using hhead

end DropWhile

namespace Path

/-! ## Names -/

/-- the path asks for `.` in a directory -/
def endsHere (p : Text) : Bool := (pieces p).getLast? == some ['.']

theorem splitOn_slash (p : Text) : Text.splitOn '/' ('/' :: p) = [] :: Text.splitOn '/' p := rfl

/-- a path is what it starts with, and the rest -/
theorem lead_spec (p : Text) : p = (lead p).1 ++ (lead p).2 ∧
    ((lead p).1 = ['/'] ∨
      (lead p).1 = ['.'] ∧ ((lead p).2 = [] ∨ ∃ rest, (lead p).2 = '/' :: rest) ∨
      (lead p).1 = [] ∧ isAbsolute p = false) := by
  unfold lead
  split
  · exact ⟨rfl, .inl rfl⟩
  · exact ⟨rfl, .inr (.inl ⟨rfl, .inl rfl⟩)⟩
  · exact ⟨rfl, .inr (.inl ⟨rfl, .inr ⟨_, rfl⟩⟩)⟩
  · next h _ _ =>
    refine ⟨rfl, .inr (.inr ⟨rfl, ?_⟩)⟩
    cases p with
    | nil => rfl
    | cons c p =>
      have hc : c ≠ '/' := fun hc => h p (hc ▸ rfl)
      simpa [isAbsolute] using hc

/-- the names of a path are its pieces other than `.` -/
theorem names_eq (p : Text) : names p = (pieces p).filter (· != ['.']) := by
  rw [names_eq_filter_splitOn, pieces, List.filter_filter]
  refine List.filter_congr ?_
  intro name _
  simp [isIdle, Bool.and_comm, bne]

/-- a file name is the one name of its path -/
theorem names_name {name : Text} (h : name ≠ []) (hslash : '/' ∉ name) (hdot : name ≠ ['.']) :
    names name = [name] := by
  rw [names_eq_filter_splitOn, Text.splitOn_eq, List.splitOn_eq_singleton hslash]
  exact List.filter_cons_of_pos (by simp [isIdle, h, hdot])

/-! ## Parents -/

/-- a list of pieces cut in front of its last name: the pieces up to there, and the name -/
structure CutPieces (all kept : List Text) (last : Text) : Prop where
  kept_begins : kept <+: all
  /-- nothing idle is left at the end -/
  kept_last : ∀ name, kept.getLast? = some name → isIdle name = false
  names : all.filter (fun name => !isIdle name) = kept.filter (fun name => !isIdle name) ++ [last]

theorem cutPieces {all before : List Text} {last : Text}
    (h : all.reverse.dropWhile isIdle = last :: before) :
    CutPieces all (before.dropWhile isIdle).reverse last where
  kept_begins := by
    have hbefore : before <:+ all.reverse :=
      (List.suffix_cons last before).trans (h ▸ List.dropWhile_suffix isIdle)
    have hkept := (List.dropWhile_suffix isIdle (l := before)).trans hbefore
    rwa [← List.reverse_prefix, List.reverse_reverse] at hkept
  kept_last name hname := by
    rw [List.getLast?_reverse] at hname
    obtain ⟨rest, hrest⟩ := List.head?_eq_some_iff.1 hname
    exact head_dropWhile_not isIdle hrest
  names := by
    have hlast := head_dropWhile_not isIdle h
    have hall : (all.reverse.filter fun name => !isIdle name) =
        last :: before.filter fun name => !isIdle name := by
      rw [← filter_dropWhile_not, h, List.filter_cons_of_pos (by simp [hlast])]
    rw [List.filter_reverse, List.reverse_eq_iff] at hall
    rw [hall, List.reverse_cons, List.filter_reverse, filter_dropWhile_not]

/-- put behind what the path starts with, the pieces are cut again as they were, but for idle ones
in front -/
theorem splitOn_lead_join {p : Text} {kept : List Text}
    (hkept : kept <+: Text.splitOn '/' (lead p).2)
    (hlast : ∀ name, kept.getLast? = some name → isIdle name = false) :
    ∃ idle idle' rest, Text.splitOn '/' ((lead p).1 ++ Text.join ['/'] kept) = idle ++ rest ∧
      kept = idle' ++ rest ∧ (∀ name ∈ idle ++ idle', isIdle name = true) := by
  by_cases hne : kept = []
  · subst hne
    refine ⟨_, [], [], (List.append_nil _).symm, rfl, ?_⟩
    rcases (lead_spec p).2 with hstart | ⟨hstart, -⟩ | ⟨hstart, -⟩ <;> rw [hstart] <;> decide
  · have hjoin : ∀ some, some ≠ [] → some <:+ kept →
        Text.splitOn '/' (Text.join ['/'] some) = some := by
      intro some hsome hsub
      have hslash : ∀ piece ∈ some, '/' ∉ piece := fun piece hpiece hs =>
        (Text.mem_of_mem_splitOn (hkept.subset (hsub.subset hpiece)) _ hs).2 rfl
      exact Text.splitOn_join hsome hslash
    have hall := hjoin kept hne (List.suffix_refl kept)
    rcases (lead_spec p).2 with hstart | ⟨hstart, hbody⟩ | ⟨hstart, -⟩
    · exact ⟨[[]], [], kept, by rw [hstart, List.singleton_append, splitOn_slash, hall]; rfl, rfl,
        by decide⟩
    · -- a path that starts with a `.` goes on with a slash
      have hpieces : kept ≠ [[]] := by
        rintro rfl
        exact absurd (hlast [] rfl) (by decide)
      obtain ⟨rest, hrest⟩ : ∃ rest, (lead p).2 = '/' :: rest := by
        refine hbody.resolve_left ?_
        intro hempty
        rw [hempty] at hkept
        rcases List.prefix_cons_iff.1 hkept with h | ⟨more, h, hmore⟩
        · exact hne h
        · exact hpieces (by rw [h, List.prefix_nil.1 hmore])
      rw [hrest, splitOn_slash] at hkept
      obtain ⟨more, rfl, -⟩ := (List.prefix_cons_iff.1 hkept).resolve_left hne
      have hmore : more ≠ [] := by
        rintro rfl
        exact hpieces rfl
      obtain ⟨next, more, rfl⟩ := List.exists_cons_of_ne_nil hmore
      have hcut : Text.splitOn '/' (['.'] ++ Text.join ['/'] ([] :: next :: more)) =
          ['.'] :: Text.splitOn '/' (Text.join ['/'] (next :: more)) := rfl
      refine ⟨[['.']], [[]], next :: more, ?_, rfl, by decide⟩
      rw [hstart, hcut, hjoin _ (List.cons_ne_nil _ _) (List.suffix_cons _ _)]
      rfl
    · exact ⟨[], [], kept, by rw [hstart, List.nil_append, hall]; rfl, rfl, by simp⟩

theorem filter_idle_append {idle rest : List Text} (h : ∀ name ∈ idle, isIdle name = true) :
    (idle ++ rest).filter (fun name => !isIdle name) = rest.filter fun name => !isIdle name := by
  have hidle : idle.filter (fun name => !isIdle name) = [] :=
    List.filter_eq_nil_iff.2 fun name hname => by simp [h name hname]
  rw [List.filter_append, hidle, List.nil_append]

theorem getLast?_filter_of_getLast? {α : Type} {f : α → Bool} {l : List α} {x : α}
    (h : l.getLast? = some x) (hx : f x = true) : (l.filter f).getLast? = some x := by
  obtain ⟨init, rfl⟩ := List.getLast?_eq_some_iff.1 h
  rw [List.filter_append, List.filter_cons_of_pos hx, List.filter_nil, List.getLast?_concat]

theorem names_of_idle {p : Text}
    (h : (Text.splitOn '/' (lead p).2).reverse.dropWhile isIdle = []) : names p = [] := by
  rw [names, ← List.reverse_eq_nil_iff, ← List.filter_reverse, ← filter_dropWhile_not, h]
  rfl

/-- what the path starts with, and some of its pieces, have the names among the pieces -/
theorem names_lead_join {p q : Text} {kept : List Text}
    (hkept : kept <+: Text.splitOn '/' (lead p).2)
    (hlast : ∀ name, kept.getLast? = some name → isIdle name = false)
    (hq : (lead p).1 ++ Text.join ['/'] kept = q) :
    names q = kept.filter (fun name => !isIdle name) ∧ (endsHere q = true → names q = []) := by
  obtain ⟨idle, idle', rest, hcut, hrest, hidle⟩ := splitOn_lead_join hkept hlast
  rw [hq] at hcut
  have hnames : names q = rest.filter fun name => !isIdle name := by
    rw [names_eq_filter_splitOn, hcut,
      filter_idle_append fun name hname => hidle name (List.mem_append_left _ hname)]
  constructor
  · rw [hnames, hrest,
      filter_idle_append fun name hname => hidle name (List.mem_append_right _ hname)]
  · intro hends
    rcases List.eq_nil_or_concat' rest with rfl | ⟨init, name, rfl⟩
    · rw [hnames]
      rfl
    · -- the last piece that is left is not idle, so the path does not end with it if it is a `.`
      have hname : isIdle name = false := hlast name (by rw [hrest]; simp)
      have hlastPiece : (pieces q).getLast? = some name := by
        refine getLast?_filter_of_getLast? (by rw [hcut]; simp) ?_
        simpa [isIdle] using fun hnil : name = [] => by simp [isIdle, hnil] at hname
      rw [endsHere, hlastPiece, beq_iff_eq, Option.some.injEq] at hends
      rw [hends] at hname
      cases hname

theorem lead_join_begins {p : Text} {kept : List Text}
    (hkept : kept <+: Text.splitOn '/' (lead p).2) :
    (lead p).1 ++ Text.join ['/'] kept <+: p := by
  have hwhole := (List.prefix_append_right_inj (lead p).1).2 (Text.join_begins_of_splitOn hkept)
  rwa [← (lead_spec p).1] at hwhole

/-- **Parents**: the parent of a path is a beginning of its text, lacks the last name, and does not
end in a `.` behind a name -/
theorem parent?_spec {p q : Text} (h : parent? p = some q) :
    q <+: p ∧ q.length < p.length ∧ names q = (names p).dropLast ∧
      isAbsolute q = isAbsolute p ∧ (endsHere q = true → names q = []) := by
  obtain ⟨hp, hstart⟩ := lead_spec p
  unfold parent? at h
  cases hcut : (Text.splitOn '/' (lead p).2).reverse.dropWhile isIdle with
  | nil =>
    simp only [hcut, Option.ite_none_right_eq_some, Option.some.injEq] at h
    obtain ⟨hdot, rfl⟩ := h
    have hnames := names_of_idle hcut
    have hne : p ≠ [] := by
      rintro rfl
      cases hdot
    have hrelative : isAbsolute p = false := by
      rw [hp, hdot]
      rfl
    exact ⟨List.nil_prefix, List.length_pos_iff.2 hne, by rw [hnames]; rfl, hrelative.symm, fun _ => rfl⟩
  | cons last before =>
    simp only [hcut, Option.some.injEq] at h
    obtain ⟨hkept, hlast, hnames⟩ := cutPieces hcut
    obtain ⟨hqnames, hqends⟩ := names_lead_join hkept hlast h
    have hbegins : q <+: p := h ▸ lead_join_begins hkept
    have hparent : names q = (names p).dropLast := by
      rw [hqnames, show names p = _ from hnames, List.dropLast_concat]
    have hlonger : q ≠ p := by
      rintro rfl
      have hlength := congrArg List.length hparent
      have hpositive : 0 < (names q).length := by
        rw [show names q = _ from hnames]
        simp
      rw [List.length_dropLast] at hlength
      omega
    refine ⟨hbegins, ?_, hparent, ?_, hqends⟩
    · exact lt_of_le_of_ne hbegins.length_le fun heq => hlonger (hbegins.eq_of_length heq)
    · obtain ⟨more, rfl⟩ := hbegins
      cases q with
      | cons c q => rfl
      | nil =>
        rcases hstart with hslash | ⟨hdot, -⟩ | ⟨-, hrelative⟩
        · rw [hslash] at h
          cases h
        · rw [hdot] at h
          cases h
        · exact hrelative.symm

theorem exists_parent? {p : Text} (h : names p ≠ []) : ∃ q, parent? p = some q := by
  unfold parent?
  cases hcut : (Text.splitOn '/' (lead p).2).reverse.dropWhile isIdle with
  | nil => exact absurd (names_of_idle hcut) h
  | cons last before =>
    simp only [hcut]
    exact ⟨_, rfl⟩

/-! ## Ancestors -/

/-- what holds of a path if it holds of its parent holds of every path -/
theorem parent_induction {motive : Text → Prop}
    (step : ∀ p, (∀ q, parent? p = some q → motive q) → motive p) (p : Text) : motive p := by
  induction hlength : p.length using Nat.strong_induction_on generalizing p with
  | _ n ih =>
    refine step p ?_
    intro q hq
    exact ih q.length (hlength ▸ (parent?_spec hq).2.1) q rfl

/-- any bound at least as long as the path gives all that is above it -/
theorem ancestorsWithin_eq {n k : Nat} {p : Text} (hn : p.length ≤ n) (hk : p.length ≤ k) :
    ancestorsWithin n p = ancestorsWithin k p := by
  induction n generalizing k p with
  | zero =>
    obtain rfl := List.length_eq_zero_iff.1 (Nat.le_zero.1 hn)
    cases k <;> rfl
  | succ n ih =>
    cases k with
    | zero =>
      obtain rfl := List.length_eq_zero_iff.1 (Nat.le_zero.1 hk)
      rfl
    | succ k =>
      rw [ancestorsWithin, ancestorsWithin]
      cases hq : parent? p with
      | none => rfl
      | some q =>
        have hshorter := (parent?_spec hq).2.1
        dsimp only
        rw [ih (k := k) (by omega) (by omega)]

theorem ancestors_of_parent {p q : Text} (h : parent? p = some q) :
    ancestors p = p :: ancestors q := by
  have hshorter := (parent?_spec h).2.1
  obtain ⟨c, cs, rfl⟩ := List.exists_cons_of_ne_nil
    (List.ne_nil_of_length_pos (Nat.lt_of_le_of_lt (Nat.zero_le _) hshorter))
  rw [ancestors, List.length_cons, ancestorsWithin, h, ancestors]
  simp only [List.length_cons] at hshorter
  dsimp only
  rw [ancestorsWithin_eq (k := q.length) (by omega) le_rfl]

theorem ancestors_of_none {p : Text} (h : parent? p = none) : ancestors p = [p] := by
  unfold ancestors
  cases p with
  | nil => rfl
  | cons c cs => rw [List.length_cons, ancestorsWithin, h]

/-- what is above a path is a beginning of it -/
theorem mem_ancestors {p q : Text} (h : q ∈ ancestors p) :
    q <+: p ∧ names q <+: names p ∧ isAbsolute q = isAbsolute p := by
  induction p using parent_induction with
  | step p ih =>
    cases hparent : parent? p with
    | none =>
      rw [ancestors_of_none hparent] at h
      rw [List.mem_singleton.1 h]
      exact ⟨List.prefix_refl p, List.prefix_refl _, rfl⟩
    | some above =>
      rw [ancestors_of_parent hparent] at h
      obtain ⟨hbegins, -, hnames, habsolute, -⟩ := parent?_spec hparent
      rcases List.mem_cons.1 h with rfl | h
      · exact ⟨List.prefix_refl q, List.prefix_refl _, rfl⟩
      · obtain ⟨hq, hqnames, hqabsolute⟩ := ih above hparent h
        exact ⟨hq.trans hbegins, hqnames.trans (hnames ▸ List.dropLast_prefix _),
          hqabsolute.trans habsolute⟩

/-- **Going up**: a search that looks at the names only looks at all beginnings of them, the longest
first -/
theorem findSome?_ancestors {β : Type} {f : Text → Option β} {g : List Text → Option β} {p : Text}
    (h : ∀ q ∈ ancestors p, f q = g (names q)) :
    (ancestors p).findSome? f = (names p).inits.reverse.findSome? g := by
  induction p using parent_induction with
  | step p ih =>
    cases hparent : parent? p with
    | none =>
      have hnames : names p = [] := by
        by_contra hne
        obtain ⟨q, hq⟩ := exists_parent? hne
        rw [hparent] at hq
        cases hq
      rw [ancestors_of_none hparent] at h ⊢
      rw [List.findSome?_singleton, h p (List.mem_singleton_self p), hnames]
      simp
    | some q =>
      rw [ancestors_of_parent hparent] at h ⊢
      obtain ⟨-, -, hnames, -, -⟩ := parent?_spec hparent
      have habove := ih q hparent fun q' hq' => h q' (List.mem_cons_of_mem p hq')
      rw [List.findSome?_cons, h p List.mem_cons_self, habove, hnames]
      rcases List.eq_nil_or_concat' (names p) with hnil | ⟨init, last, hconcat⟩
      · -- the path has no name left, and neither has what is above it
        rw [hnil]
        cases hg : g [] <;> simp [hg]
      · rw [hconcat, List.dropLast_concat, List.inits_append]
        simp only [List.inits, List.tail_cons, List.map_cons, List.map_nil, List.reverse_append,
          List.reverse_cons, List.reverse_nil, List.nil_append, List.cons_append,
          List.findSome?_cons]

/-! ## Joining -/

theorem join_absolute {q : Text} (hq : isAbsolute q = true) (p : Text) : join p q = q := by
  rw [join, if_pos hq]

theorem join_relative {q : Text} (hq : isAbsolute q = false) (p : Text) :
    join p q = if p = [] ∨ p.getLast? = some '/' then p ++ q else p ++ '/' :: q := by
  rw [join, if_neg (by simp [hq])]
  simp only [List.isEmpty_iff, Bool.or_eq_true, beq_iff_eq]

theorem begins_join {q : Text} (hq : isAbsolute q = false) (p : Text) : p <+: join p q := by
  rw [join_relative hq]
  split_ifs <;> exact List.prefix_append _ _

/-- the names of a joined path are those of both -/
theorem names_join {q : Text} (hq : isAbsolute q = false) (p : Text) :
    names (join p q) = names p ++ names q := by
  by_cases hp : p = []
  · subst hp
    rw [join_nil_left]
    rfl
  · obtain ⟨before, hjoin, hpieces⟩ := exists_join_eq hq hp
    rw [names_eq, names_eq p, names_eq q, hjoin, pieces_append_slash, hpieces, List.filter_append]

theorem isAbsolute_append {p : Text} (hp : p ≠ []) (q : Text) :
    isAbsolute (p ++ q) = isAbsolute p := by
  obtain ⟨c, cs, rfl⟩ := List.exists_cons_of_ne_nil hp
  rfl

theorem slash_mem_join {p q : Text} (h : '/' ∈ p ∨ '/' ∈ q) : '/' ∈ join p q := by
  by_cases hq : isAbsolute q = true
  · rw [join_absolute hq]
    exact List.mem_of_head? (by simpa [isAbsolute] using hq)
  · rw [join_relative (by simpa using hq)]
    split_ifs
    · exact List.mem_append.2 h
    · simp

theorem join_eq_nil_iff {p q : Text} : join p q = [] ↔ p = [] ∧ q = [] := by
  by_cases hq : isAbsolute q = true
  · rw [join_absolute hq]
    constructor
    · rintro rfl
      cases hq
    · exact And.right
  · rw [join_relative (by simpa using hq)]
    split_ifs <;> simp_all

theorem isAbsolute_join {p : Text} (hp : p ≠ []) {q : Text} (hq : isAbsolute q = false) :
    isAbsolute (join p q) = isAbsolute p := by
  rw [join, if_neg (by simp [hq])]
  split_ifs <;> exact isAbsolute_append hp _

theorem getLast?_join {q : Text} (hne : q ≠ []) (hq : isAbsolute q = false) (p : Text) :
    (join p q).getLast? = q.getLast? := by
  rw [join, if_neg (by simp [hq])]
  split_ifs
  · exact List.getLast?_append_of_ne_nil p hne
  · rw [List.getLast?_append_of_ne_nil _ (List.cons_ne_nil _ _), List.getLast?_cons_of_ne_nil hne]

/-- it does not matter where a path of three parts is joined first -/
theorem join_assoc {q : Text} (hne : q ≠ []) (p r : Text) :
    join (join p q) r = join p (join q r) := by
  by_cases hr : isAbsolute r = true
  · rw [join_absolute hr, join_absolute hr, join_absolute hr]
  · have hr : isAbsolute r = false := by simpa using hr
    by_cases hq : isAbsolute q = true
    · rw [join_absolute hq, join_absolute ((isAbsolute_join hne hr).trans hq)]
    · have hq : isAbsolute q = false := by simpa using hq
      have hqr : isAbsolute (join q r) = false := (isAbsolute_join hne hr).trans hq
      have hpq : join p q ≠ [] := fun hnil => hne (join_eq_nil_iff.1 hnil).2
      have hleft := join_relative hr (join p q)
      have hright := join_relative hr q
      simp only [hpq, hne, false_or, getLast?_join hne hq p] at hleft hright
      rw [join_relative hqr p, hleft, hright, join_relative hq p]
      split_ifs <;> simp

/-! ## Absolute paths of places -/

section Places

variable {r : Route} {name : Text}

theorem isIdle_eq_false (h : Route.IsName name) : isIdle name = false := by
  simp [isIdle, h.nonempty, h.not_here]

/-- what is above the path of a place is the path of the place above -/
theorem parent?_text (h : ∀ n ∈ r ++ [name], Route.IsName n) :
    parent? (Route.text (r ++ [name])) = some (Route.text r) := by
  have hne : r ++ [name] ≠ [] := by simp
  have hlead : lead (Route.text (r ++ [name])) = (['/'], ['/'].intercalate (r ++ [name])) := by
    rw [Route.text_eq_intercalate hne]
    rfl
  have hlast : isIdle name = false := isIdle_eq_false (h name (by simp))
  have hrest : r.reverse.dropWhile isIdle = r.reverse := by
    rcases List.eq_nil_or_concat' r with rfl | ⟨init, last, rfl⟩
    · rfl
    · have hidle : isIdle last = false := isIdle_eq_false (h last (by simp))
      rw [List.reverse_append, List.reverse_singleton, List.singleton_append,
        List.dropWhile_cons_of_neg (by simp [hidle])]
  have hcut : (Text.splitOn '/' (['/'].intercalate (r ++ [name]))).reverse.dropWhile isIdle =
      name :: r.reverse := by
    rw [Route.splitOn_text hne h, List.reverse_append, List.reverse_singleton,
      List.singleton_append, List.dropWhile_cons_of_neg (by simp [hlast])]
  unfold parent?
  simp only [hlead, hcut, hrest, List.reverse_reverse, Text.join_eq]
  by_cases hr : r = []
  · subst hr
    rfl
  · rw [Route.text_eq_intercalate hr]
    rfl

/-- going up from the path of a place passes the paths of all places above it -/
theorem ancestors_text (h : ∀ n ∈ r, Route.IsName n) :
    ancestors (Route.text r) = r.inits.reverse.map Route.text := by
  induction r using List.reverseRecOn with
  | nil => rfl
  | append_singleton r name ih =>
    rw [ancestors_of_parent (parent?_text h), ih fun n hn => h n (List.mem_append_left _ hn),
      List.inits_append]
    simp

theorem directory_text (h : ∀ n ∈ r ++ [name], Route.IsName n) :
    directory (Route.text (r ++ [name])) = Route.text r := by
  have hne : Route.text r ≠ [] := by
    intro hnil
    have habsolute := Route.isAbsolute_text r
    rw [hnil] at habsolute
    cases habsolute
  rw [directory, parent?_text h]
  simp only [List.isEmpty_iff, hne, if_false]

/-- a relative path behind the path of a place -/
theorem join_text {q : Text} (h : ∀ n ∈ r, Route.IsName n) (hq : isAbsolute q = false) :
    join (Route.text r) q = (r.flatMap fun name => '/' :: name) ++ '/' :: q := by
  rcases List.eq_nil_or_concat' r with rfl | ⟨init, last, rfl⟩
  · rw [join_relative hq]
    rfl
  · obtain ⟨before, hbefore⟩ := Route.text_append_singleton init last
    have hlast := h last (by simp)
    have hend : (Route.text (init ++ [last])).getLast? ≠ some '/' := by
      rw [hbefore]
      exact FileSystem.getLast?_ne_slash hlast.nonempty hlast.no_slash before
    have hnil : Route.text (init ++ [last]) ≠ [] := by
      rw [hbefore]
      simp
    rw [join_relative hq, if_neg (by simp [hend, hnil]), Route.text, if_neg (by simp)]

/-- a name behind the path of a place is the path of the place below -/
theorem join_text_name (h : ∀ n ∈ r, Route.IsName n) (hname : Route.IsName name) :
    join (Route.text r) name = Route.text (r ++ [name]) := by
  rw [join_text h (isAbsolute_of_no_slash hname.no_slash), Route.text, if_neg (by simp),
    List.flatMap_append, List.flatMap_singleton]

end Places

end Path

end CodeCache
