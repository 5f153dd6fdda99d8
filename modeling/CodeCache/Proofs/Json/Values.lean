/-
JSON values that come back from their texts unchanged, and what these texts look like.

- `Canonical.parse?_render`: a value is read from its text as it is, if its objects are sorted
  (`Sorted`) besides being exact.
- `mem_renderString`, `mem_renderItems`, `mem_renderMembers`: which characters are written.
- `Exact.oneLine`, `Exact.solid`: the text has no line ends, and neither end of it is a blank or a
  semicolon. So a reader that cuts programs at line ends and trims what it has cut leaves it whole.
- `member?_insertMember`: what an object has at a key after a member was put into it.
-/
import CodeCache.Proofs.Association
import CodeCache.Proofs.Json.ReadBack
import CodeCache.Proofs.Text.Cutting
import CodeCache.Proofs.Text.Trimming

namespace CodeCache.Json

/-! ## Members by key -/

/-- a member put into an object is found, and hides none but the one of the same key -/
theorem member?_insertMember (key other : Text) (value : Json) (members : List (Text × Json)) :
    (Json.obj (insertMember key value members)).member? other =
      if other = key then some value else (Json.obj members).member? other := by
  simp only [member?]
  induction members with
  | nil => rw [insertMember, Association.lookup_cons_ite]
  | cons m members ih =>
    obtain ⟨k, v⟩ := m
    rw [insertMember, Association.lookup_cons_ite k]
    by_cases hsame : key = k
    · rw [if_pos hsame, Association.lookup_cons_ite, hsame]
      split_ifs <;> rfl
    · by_cases hbefore : key < k
      · rw [if_neg hsame, if_pos hbefore, Association.lookup_cons_ite, Association.lookup_cons_ite]
      · rw [if_neg hsame, if_neg hbefore, Association.lookup_cons_ite, ih]
        by_cases hother : other = k
        · have hne : other ≠ key := fun h => hsame (h.symm.trans hother)
          rw [if_pos hother, if_neg hne, if_pos hother]
        · rw [if_neg hother, if_neg hother]

/-- objects have their members sorted by key, each key once -/
inductive Sorted : Json → Prop
  | null : Sorted .null
  | bool (b : Bool) : Sorted (.bool b)
  | int (n : Int) : Sorted (.int n)
  | float (x : Binary64) : Sorted (.float x)
  | str (t : Text) : Sorted (.str t)
  | arr {items : List Json} (h : ∀ item ∈ items, Sorted item) : Sorted (.arr items)
  | obj {members : List (Text × Json)} (keys : members.Pairwise fun m m' => m.1 < m'.1)
    (h : ∀ m ∈ members, Sorted m.2) : Sorted (.obj members)

theorem insertMember_last {key : Text} {members : List (Text × Json)}
    (h : ∀ m ∈ members, m.1 < key) (value : Json) :
    insertMember key value members = members ++ [(key, value)] := by
  induction members with
  | nil => rfl
  | cons m members ih =>
    obtain ⟨hm, hmembers⟩ := List.forall_mem_cons.1 h
    have hne : key ≠ m.1 := by
      rintro rfl
      exact List.lt_irrefl _ hm
    rw [insertMember, if_neg hne, if_neg (List.lt_asymm hm), ih hmembers, List.cons_append]

theorem foldl_insertMember {fields members : List (Text × Json)}
    (h : (fields ++ members).Pairwise fun m m' => m.1 < m'.1) :
    members.foldl (fun fields (k, v) => insertMember k v fields) fields = fields ++ members := by
  induction members generalizing fields with
  | nil => rw [List.append_nil, List.foldl_nil]
  | cons m members ih =>
    have hlast : ∀ m' ∈ fields, m'.1 < m.1 := fun m' hm' =>
      (List.pairwise_append.1 h).2.2 m' hm' m List.mem_cons_self
    have hmore : (fields ++ [m] ++ members).Pairwise fun m m' => m.1 < m'.1 := by
      rwa [List.append_assoc, List.singleton_append]
    calc (m :: members).foldl (fun fields (k, v) => insertMember k v fields) fields
        = members.foldl (fun fields (k, v) => insertMember k v fields)
            (insertMember m.1 m.2 fields) := rfl
      _ = fields ++ [m] ++ members := by rw [insertMember_last hlast, ih hmore]
      _ = fields ++ m :: members := by rw [List.append_assoc, List.singleton_append]

theorem object_of_pairwise {members : List (Text × Json)}
    (h : members.Pairwise fun m m' => m.1 < m'.1) : object members = .obj members := by
  rw [object, foldl_insertMember (by simpa using h), List.nil_append]

theorem orderedMembers_eq_self {members : List (Text × Json)}
    (h : ∀ m ∈ members, ordered m.2 = m.2) : orderedMembers members = members := by
  induction members with
  | nil => rfl
  | cons m members ih =>
    obtain ⟨hm, hmembers⟩ := List.forall_mem_cons.1 h
    rw [orderedMembers, hm, ih hmembers]

theorem Sorted.ordered_eq {value : Json} (h : Sorted value) : ordered value = value := by
  induction h with
  | null => rfl
  | bool b => rfl
  | int n => rfl
  | float x => rfl
  | str t => rfl
  | arr _ ih => rw [ordered, orderedItems_eq_self ih]
  | obj keys _ ih => rw [ordered, orderedMembers_eq_self ih, object_of_pairwise keys]

/-- a value as readers make it: it is written exactly and its objects are sorted -/
structure Canonical (value : Json) : Prop where
  exact : Exact deepest value
  sorted : Sorted value

theorem Canonical.parse?_render {value : Json} (h : Canonical value) :
    parse? (render value) = some value := by
  rw [h.exact.parse?_render, h.sorted.ordered_eq]

/-! ## The characters of a text -/

theorem renderItems_eq_join (items : List Json) :
    renderItems items = Text.join [','] (items.map render) := by
  induction items with
  | nil => rfl
  | cons item items ih =>
    cases items with
    | nil => rfl
    | cons next items =>
      rw [renderItems_cons_cons, ih]
      simp [Text.join]

theorem renderMembers_eq_join (members : List (Text × Json)) :
    renderMembers members =
      Text.join [','] (members.map fun m => renderString m.1 ++ ':' :: render m.2) := by
  induction members with
  | nil => rfl
  | cons m members ih =>
    cases members with
    | nil => rfl
    | cons next members =>
      obtain ⟨key, value⟩ := m
      rw [renderMembers_cons_cons, ih]
      simp [Text.join]

theorem mem_renderItems {c : Char} {items : List Json} (h : c ∈ renderItems items) :
    c = ',' ∨ ∃ item ∈ items, c ∈ render item := by
  rw [renderItems_eq_join] at h
  rcases Text.mem_of_mem_join h with hcomma | ⟨piece, hpiece, hc⟩
  · exact .inl (List.mem_singleton.1 hcomma)
  · obtain ⟨item, hitem, rfl⟩ := List.mem_map.1 hpiece
    exact .inr ⟨item, hitem, hc⟩

theorem mem_renderMembers {c : Char} {members : List (Text × Json)}
    (h : c ∈ renderMembers members) :
    c = ',' ∨ ∃ m ∈ members, c ∈ renderString m.1 ∨ c = ':' ∨ c ∈ render m.2 := by
  rw [renderMembers_eq_join] at h
  rcases Text.mem_of_mem_join h with hcomma | ⟨piece, hpiece, hc⟩
  · exact .inl (List.mem_singleton.1 hcomma)
  · obtain ⟨m, hm, rfl⟩ := List.mem_map.1 hpiece
    rw [List.mem_append, List.mem_cons] at hc
    exact .inr ⟨m, hm, hc⟩

/-- a character that stands for others: a backslash, a quote, a lower-case letter or a digit -/
def isEscape (c : Char) : Bool :=
  c == '\\' || c == '"' || ('a' ≤ c && c ≤ 'z') || Text.isDigit c

theorem mem_escapeChar {c d : Char} (h : d ∈ escapeChar c) :
    (d = c ∧ 0x20 ≤ c.toNat) ∨ isEscape d = true := by
  have hdigit : ∀ n < 16, isEscape (Hex.digit n) = true := by decide
  have hwritten : ∀ {t : Text}, t.all isEscape = true → d ∈ t → isEscape d = true :=
    fun ht hd => List.all_eq_true.1 ht d hd
  unfold escapeChar at h
  split_ifs at h with _ _ _ _ _ _ _ hlow
  on_goal 8 =>
    have hhigh := hdigit (c.toNat / 16) (by omega)
    have hrest := hdigit (c.toNat % 16) (by omega)
    refine .inr (hwritten ?_ h)
    simp only [List.all_cons, List.all_nil, hhigh, hrest]
    decide
  on_goal 8 =>
    exact .inl ⟨List.mem_singleton.1 h, not_lt.1 hlow⟩
  all_goals exact .inr (hwritten (by decide) h)

theorem mem_renderString {c : Char} {t : Text} (h : c ∈ renderString t) :
    (c ∈ t ∧ 0x20 ≤ c.toNat) ∨ isEscape c = true := by
  rw [renderString, List.mem_append, List.mem_cons, List.mem_flatMap, List.mem_singleton] at h
  rcases h with (rfl | ⟨d, hd, hc⟩) | rfl
  · exact .inr (by decide)
  · rcases mem_escapeChar hc with ⟨rfl, hlow⟩ | hescape
    · exact .inl ⟨hd, hlow⟩
    · exact .inr hescape
  · exact .inr (by decide)

/-- no line ends and no other controls -/
def OneLine (t : Text) : Prop := ∀ c ∈ t, 0x20 ≤ c.toNat

instance (t : Text) : Decidable (OneLine t) := List.decidableBAll _ t

theorem oneLine_append {s t : Text} : OneLine (s ++ t) ↔ OneLine s ∧ OneLine t :=
  List.forall_mem_append

theorem oneLine_cons {c : Char} {t : Text} : OneLine (c :: t) ↔ 0x20 ≤ c.toNat ∧ OneLine t :=
  List.forall_mem_cons

theorem toNat_of_isEscape {c : Char} (h : isEscape c = true) : 0x20 ≤ c.toNat := by
  simp only [isEscape, Text.isDigit, Bool.or_eq_true, Bool.and_eq_true, beq_iff_eq,
    decide_eq_true_eq] at h
  have hletter : 0x20 ≤ 'a'.toNat := by decide
  have hzero : 0x20 ≤ '0'.toNat := by decide
  rcases h with ((rfl | rfl) | ⟨hlow, -⟩) | ⟨hlow, -⟩
  · decide
  · decide
  · exact hletter.trans hlow
  · exact hzero.trans hlow

theorem oneLine_renderString (t : Text) : OneLine (renderString t) := by
  intro c hc
  rcases mem_renderString hc with ⟨-, hlow⟩ | hescape
  · exact hlow
  · exact toNat_of_isEscape hescape

theorem oneLine_renderInt (n : Int) : OneLine (renderInt n) := by
  have hdigits : OneLine (Text.ofNat n.natAbs) := by
    intro c hc
    have hdigit : '0' ≤ c := (Text.isDigit_iff.1 (Text.isDigit_of_mem_ofNat hc)).1
    have hzero : 0x20 ≤ '0'.toNat := by decide
    exact hzero.trans hdigit
  rw [renderInt]
  split_ifs
  · exact oneLine_cons.2 ⟨by decide, hdigits⟩
  · exact hdigits

theorem Exact.oneLine {depth : Nat} {value : Json} (h : Exact depth value) :
    OneLine (render value) := by
  induction h with
  | null => decide
  | bool b => cases b <;> decide
  | int low high => exact oneLine_renderInt _
  | str t => exact oneLine_renderString t
  | arr _ ih =>
    rw [render, oneLine_append, oneLine_cons]
    refine ⟨⟨by decide, ?_⟩, by decide⟩
    intro c hc
    rcases mem_renderItems hc with rfl | ⟨item, hitem, hc⟩
    · decide
    · exact ih item hitem c hc
  | obj _ ih =>
    rw [render, oneLine_append, oneLine_cons]
    refine ⟨⟨by decide, ?_⟩, by decide⟩
    intro c hc
    rcases mem_renderMembers hc with rfl | ⟨m, hm, hc | rfl | hc⟩
    · decide
    · exact oneLine_renderString m.1 c hc
    · decide
    · exact ih m hm c hc

/-! ## The ends of a text -/

/-- neither a blank nor a semicolon, both of which may stand around a text -/
def isSolid (c : Char) : Bool := !Text.isBlank c && c != ';'

/-- neither end of the text is a blank or a semicolon -/
structure Solid (t : Text) : Prop where
  first : ∃ c more, t = c :: more ∧ isSolid c = true
  last : ∃ front c, t = front ++ [c] ∧ isSolid c = true

theorem isSolid_iff {c : Char} : isSolid c = true ↔ Text.isBlank c = false ∧ c ≠ ';' := by
  simp [isSolid]

theorem Solid.first_solid {t : Text} (h : Solid t) : ∀ c ∈ t.head?, isSolid c = true := by
  obtain ⟨⟨c, more, rfl, hc⟩, -⟩ := h
  simpa using hc

theorem Solid.last_solid {t : Text} (h : Solid t) : ∀ c ∈ t.getLast?, isSolid c = true := by
  obtain ⟨-, front, c, rfl, hc⟩ := h
  simpa using hc

theorem Solid.trimmed {t : Text} (h : Solid t) : t.Trimmed where
  first := fun c hc => (isSolid_iff.1 (h.first_solid c hc)).1
  last := fun c hc => (isSolid_iff.1 (h.last_solid c hc)).1

/-- what is put in front of the text does not change how it ends -/
theorem Solid.trimmed_append {s t : Text} (hs : ∀ c ∈ s.head?, Text.isBlank c = false) (hne : s ≠ [])
    (h : Solid t) : Text.Trimmed (s ++ t) where
  first := by
    rwa [List.head?_append_of_ne_nil _ hne]
  last := by
    obtain ⟨-, front, c, rfl, hc⟩ := h
    have hlast : (s ++ (front ++ [c])).getLast? = some c := by simp
    rw [hlast]
    rintro _ ⟨⟩
    exact (isSolid_iff.1 hc).1

theorem isSolid_of_isDigit {c : Char} (h : Text.isDigit c = true) : isSolid c = true := by
  have hblank := Text.isBlank_of_isDigit h
  have hsemicolon : c ≠ ';' := by
    rintro rfl
    exact absurd h (by decide)
  exact isSolid_iff.2 ⟨hblank, hsemicolon⟩

theorem solid_around {first last : Char} (hfirst : isSolid first = true) (hlast : isSolid last = true)
    (inner : Text) : Solid (first :: inner ++ [last]) where
  first := ⟨first, inner ++ [last], rfl, hfirst⟩
  last := ⟨first :: inner, last, rfl, hlast⟩

theorem solid_ofNat (n : Nat) : Solid (Text.ofNat n) where
  first := by
    obtain ⟨c, more, hcons⟩ := List.exists_cons_of_ne_nil (Text.ofNat_ne_nil n)
    have hc : c ∈ Text.ofNat n := by simp [hcons]
    exact ⟨c, more, hcons, isSolid_of_isDigit (Text.isDigit_of_mem_ofNat hc)⟩
  last := by
    obtain ⟨front, c, hsnoc⟩ := (List.eq_nil_or_concat' _).resolve_left (Text.ofNat_ne_nil n)
    have hc : c ∈ Text.ofNat n := by simp [hsnoc]
    exact ⟨front, c, hsnoc, isSolid_of_isDigit (Text.isDigit_of_mem_ofNat hc)⟩

theorem solid_renderInt (n : Int) : Solid (renderInt n) := by
  obtain ⟨hfirst, front, c, hlast, hc⟩ := solid_ofNat n.natAbs
  rw [renderInt]
  split_ifs
  · exact ⟨⟨'-', _, rfl, by decide⟩, '-' :: front, c, by rw [hlast]; rfl, hc⟩
  · exact ⟨hfirst, front, c, hlast, hc⟩

theorem Exact.solid {depth : Nat} {value : Json} (h : Exact depth value) : Solid (render value) := by
  cases h with
  | null => exact solid_around (by decide) (by decide) "ul".toList
  | bool b =>
    cases b
    · exact solid_around (by decide) (by decide) "als".toList
    · exact solid_around (by decide) (by decide) "ru".toList
  | int low high => exact solid_renderInt _
  | str t => exact solid_around (by decide) (by decide) _
  | arr _ => exact solid_around (by decide) (by decide) _
  | obj _ => exact solid_around (by decide) (by decide) _

end CodeCache.Json
