/-
Paths in another spelling of their characters.

To a path only the slash and the point are more than characters of names. So whatever each of the
others is replaced by, as long as it is something without slash and point, a path comes apart and is
put together as before (`names_respell`, `parent?_respell`, `respell_join`).

The spelling this is for has the bytes of a character in its place: `lettered`. With it a path of
characters is one of the paths of any bytes.
-/
import CodeCache.Compile.Options
import CodeCache.Proofs.System.Components
import CodeCache.Proofs.Text.Utf8

namespace CodeCache

/-! ## Respelling -/

namespace Text

/-- each character replaced by a text -/
def respell (f : Char → Text) (t : Text) : Text := t.flatMap f

/-- the character stays, and the others become something it is not in -/
structure Keeps (f : Char → Text) (sep : Char) : Prop where
  self : f sep = [sep]
  others : ∀ c, c ≠ sep → f c ≠ [] ∧ sep ∉ f c

variable {f : Char → Text} {sep : Char} {s t : Text}

theorem respell_append (f : Char → Text) (s t : Text) :
    respell f (s ++ t) = respell f s ++ respell f t := List.flatMap_append

theorem respell_cons (f : Char → Text) (c : Char) (t : Text) :
    respell f (c :: t) = f c ++ respell f t := List.flatMap_cons

namespace Keeps

theorem respell_sep (h : Keeps f sep) (t : Text) : respell f (sep :: t) = sep :: respell f t := by
  rw [respell_cons, h.self]
  rfl

theorem ne_nil (h : Keeps f sep) (c : Char) : f c ≠ [] := by
  by_cases hc : c = sep
  · rw [hc, h.self]
    exact List.cons_ne_nil _ _
  · exact (h.others c hc).1

theorem respell_eq_nil (h : Keeps f sep) : respell f t = [] ↔ t = [] := by
  rw [respell, List.flatMap_eq_nil_iff]
  constructor
  · intro hnil
    rw [List.eq_nil_iff_forall_not_mem]
    exact fun c hc => h.ne_nil c (hnil c hc)
  · rintro rfl
    exact fun c hc => absurd hc List.not_mem_nil

theorem mem_respell (h : Keeps f sep) : sep ∈ respell f t ↔ sep ∈ t := by
  rw [respell, List.mem_flatMap]
  constructor
  · rintro ⟨c, hc, hsep⟩
    by_cases heq : c = sep
    · exact heq ▸ hc
    · exact absurd hsep (h.others c heq).2
  · intro hsep
    exact ⟨sep, hsep, by rw [h.self]; exact List.mem_singleton_self sep⟩

/-- a character that is kept is seen through the respelling, wherever the text is looked at -/
theorem head?_eq (h : Keeps f sep) : (respell f t).head? = some sep ↔ t.head? = some sep := by
  cases t with
  | nil => rfl
  | cons c t =>
    by_cases hc : c = sep
    · simp [hc, h.respell_sep]
    · obtain ⟨hne, hnot⟩ := h.others c hc
      obtain ⟨x, xs, hx⟩ := List.exists_cons_of_ne_nil hne
      have hother : x ≠ sep := fun heq => hnot (by rw [hx, heq]; exact List.mem_cons_self)
      simp [respell_cons, hx, hc, hother]

theorem getLast?_eq (h : Keeps f sep) : (respell f t).getLast? = some sep ↔ t.getLast? = some sep := by
  induction t using List.reverseRecOn with
  | nil => rfl
  | append_singleton t c _ =>
    rw [respell_append, List.getLast?_concat]
    by_cases hc : c = sep
    · simp [respell, hc, h.self]
    · obtain ⟨hne, hnot⟩ := h.others c hc
      have hlast : respell f [c] = f c := List.flatMap_singleton f c
      rw [hlast, List.getLast?_append_of_ne_nil _ hne, List.getLast?_eq_some_getLast hne]
      have hother : (f c).getLast hne ≠ sep := fun heq => hnot (heq ▸ List.getLast_mem hne)
      simp [hc, hother]

theorem respell_join (h : Keeps f sep) (pieces : List Text) :
    respell f (join [sep] pieces) = join [sep] (pieces.map (respell f)) := by
  induction pieces with
  | nil => rfl
  | cons piece pieces ih =>
    cases pieces with
    | nil => rfl
    | cons next pieces =>
      have hsep : respell f [sep] = [sep] := h.respell_sep []
      change respell f (piece ++ [sep] ++ join [sep] (next :: pieces)) =
        respell f piece ++ [sep] ++ join [sep] ((next :: pieces).map (respell f))
      rw [respell_append, respell_append, hsep, ih]

/-- a text comes apart at the same places -/
theorem splitOn_respell (h : Keeps f sep) (t : Text) :
    splitOn sep (respell f t) = (splitOn sep t).map (respell f) := by
  have hne : (splitOn sep t).map (respell f) ≠ [] := by
    rw [Text.splitOn_eq, Ne, List.map_eq_nil_iff]
    exact List.splitOn_ne_nil sep t
  have hpieces : ∀ piece ∈ (splitOn sep t).map (respell f), sep ∉ piece := by
    intro piece hpiece hsep
    obtain ⟨old, hold, rfl⟩ := List.mem_map.1 hpiece
    exact (mem_of_mem_splitOn hold sep (h.mem_respell.1 hsep)).2 rfl
  calc splitOn sep (respell f t)
      = splitOn sep (respell f (join [sep] (splitOn sep t))) := by rw [join_splitOn]
    _ = splitOn sep (join [sep] ((splitOn sep t).map (respell f))) := by rw [h.respell_join]
    _ = (splitOn sep t).map (respell f) := splitOn_join hne hpieces

theorem splitLast?_respell (h : Keeps f sep) (t : Text) :
    splitLast? sep (respell f t) =
      (splitLast? sep t).map fun (a, b) => (respell f a, respell f b) := by
  by_cases hsep : sep ∈ t
  · obtain ⟨a, b, hcut, hb⟩ := exists_splitLast? hsep
    rw [hcut, eq_of_splitLast? hcut, respell_append, h.respell_sep,
      splitLast?_append (mt h.mem_respell.1 hb)]
    rfl
  · rw [splitLast?_of_not_mem hsep, splitLast?_of_not_mem (mt h.mem_respell.1 hsep)]
    rfl

end Keeps

end Text

/-! ## Paths -/

namespace Path

open Text

/-- slash and point are kept -/
structure Respells (f : Char → Text) : Prop where
  slash : Keeps f '/'
  point : Keeps f '.'

theorem lead_of_name {p : Text} (hslash : p.head? ≠ some '/')
    (hdot : ∀ rest, p = '.' :: rest → rest ≠ [] ∧ rest.head? ≠ some '/') : lead p = ([], p) := by
  unfold lead
  split
  · exact absurd rfl hslash
  · exact absurd rfl (hdot [] rfl).1
  · exact absurd rfl (hdot _ rfl).2
  · rfl

namespace Respells

variable {f : Char → Text} {name : Text}

/-- a text of points is told from all others -/
theorem respell_eq_points (h : Respells f) (n : Nat) :
    respell f name = List.replicate n '.' ↔ name = List.replicate n '.' := by
  induction n generalizing name with
  | zero => exact h.point.respell_eq_nil
  | succ n ih =>
    cases name with
    | nil => simp [respell]
    | cons c name =>
      rw [List.replicate_succ]
      by_cases hc : c = '.'
      · rw [hc, h.point.respell_sep, List.cons.injEq, List.cons.injEq, ih]
      · have hhead := mt h.point.head?_eq.1 (show (c :: name).head? ≠ some '.' by simpa using hc)
        constructor
        · intro heq
          rw [heq] at hhead
          exact absurd rfl hhead
        · intro heq
          exact absurd (List.cons.inj heq).1 hc

theorem isIdle_respell (h : Respells f) (name : Text) : isIdle (respell f name) = isIdle name := by
  rw [Bool.eq_iff_iff]
  simp only [isIdle, Bool.or_eq_true, beq_iff_eq]
  exact or_congr (h.respell_eq_points 0) (h.respell_eq_points 1)

theorem isNormal_respell (h : Respells f) : IsNormal (respell f name) ↔ IsNormal name := by
  have hempty : respell f name = [] ↔ name = [] := h.respell_eq_points 0
  have hhere : respell f name = ['.'] ↔ name = ['.'] := h.respell_eq_points 1
  have habove : respell f name = ['.', '.'] ↔ name = ['.', '.'] := h.respell_eq_points 2
  constructor
  · rintro ⟨hne, hslash, hdot, hdots⟩
    exact ⟨mt hempty.2 hne, mt h.slash.mem_respell.2 hslash, mt hhere.2 hdot, mt habove.2 hdots⟩
  · rintro ⟨hne, hslash, hdot, hdots⟩
    exact ⟨mt hempty.1 hne, mt h.slash.mem_respell.1 hslash, mt hhere.1 hdot, mt habove.1 hdots⟩

theorem names_respell (h : Respells f) (p : Text) :
    names (respell f p) = (names p).map (respell f) := by
  rw [names_eq_filter_splitOn, names_eq_filter_splitOn, h.slash.splitOn_respell, List.filter_map]
  congr 1
  refine List.filter_congr ?_
  intro name _
  rw [Function.comp_apply, h.isIdle_respell]

theorem fileName?_respell (h : Respells f) (p : Text) :
    fileName? (respell f p) = (fileName? p).map (respell f) := by
  rw [fileName?, fileName?, h.names_respell, List.getLast?_map]
  cases (names p).getLast? with
  | none => rfl
  | some name =>
    have hdots : respell f name = ['.', '.'] ↔ name = ['.', '.'] := h.respell_eq_points 2
    simp only [Option.map_some, hdots]
    split_ifs <;> rfl

theorem stem?_respell (h : Respells f) (p : Text) :
    stem? (respell f p) = (stem? p).map (respell f) := by
  rw [stem?, stem?, h.fileName?_respell, Option.map_map, Option.map_map]
  congr 1
  funext name
  simp only [Function.comp_apply, cutName, h.point.splitLast?_respell]
  cases splitLast? '.' name with
  | none => rfl
  | some cut =>
    obtain ⟨stem, ending⟩ := cut
    have hempty : respell f stem = [] ↔ stem = [] := h.point.respell_eq_nil
    simp only [Option.map_some, List.isEmpty_iff, hempty]
    split_ifs <;> rfl

theorem isAbsolute_respell (h : Respells f) (p : Text) :
    isAbsolute (respell f p) = isAbsolute p := by
  rw [Bool.eq_iff_iff, isAbsolute, isAbsolute, beq_iff_eq, beq_iff_eq]
  exact h.slash.head?_eq

/-- what a path starts with are slash and point, and they stay -/
theorem lead_respell (h : Respells f) (p : Text) :
    lead (respell f p) = ((lead p).1, respell f (lead p).2) := by
  by_cases hslash : p.head? = some '/'
  · obtain ⟨rest, rfl⟩ := List.head?_eq_some_iff.1 hslash
    rw [h.slash.respell_sep]
    rfl
  by_cases hdot : ∃ rest, p = '.' :: rest ∧ (rest = [] ∨ rest.head? = some '/')
  · obtain ⟨rest, rfl, rfl | hrest⟩ := hdot
    · rw [h.point.respell_sep]
      rfl
    · obtain ⟨more, rfl⟩ := List.head?_eq_some_iff.1 hrest
      rw [h.point.respell_sep, h.slash.respell_sep]
      exact congrArg (Prod.mk ['.']) (h.slash.respell_sep more).symm
  · have hself : lead p = ([], p) := by
      refine lead_of_name hslash ?_
      intro rest hp
      exact not_or.1 fun hrest => hdot ⟨rest, hp, hrest⟩
    rw [hself]
    refine lead_of_name (mt h.slash.head?_eq.1 hslash) ?_
    intro rest' hp'
    obtain ⟨rest, rfl⟩ := List.head?_eq_some_iff.1 (h.point.head?_eq.1 (by rw [hp']; rfl))
    rw [h.point.respell_sep] at hp'
    obtain rfl := (List.cons.inj hp').2
    rw [Ne, Ne, h.slash.respell_eq_nil, h.slash.head?_eq]
    exact not_or.1 fun hrest => hdot ⟨rest, rfl, hrest⟩

theorem parent?_respell (h : Respells f) (p : Text) :
    parent? (respell f p) = (parent? p).map (respell f) := by
  have hidle : isIdle ∘ respell f = isIdle := funext h.isIdle_respell
  have hstart : respell f (lead p).1 = (lead p).1 := by
    rcases (lead_spec p).2 with hp | ⟨hp, -⟩ | ⟨hp, -⟩ <;> rw [hp]
    · exact h.slash.respell_sep []
    · exact h.point.respell_sep []
    · rfl
  simp only [parent?, h.lead_respell, h.slash.splitOn_respell, ← List.map_reverse,
    List.dropWhile_map, hidle]
  cases (Text.splitOn '/' (lead p).2).reverse.dropWhile isIdle with
  | nil =>
    simp only [List.map_nil]
    split_ifs <;> rfl
  | cons last before =>
    simp only [List.map_cons, List.dropWhile_map, hidle, ← List.map_reverse, Option.map_some,
      respell_append, hstart, h.slash.respell_join]

theorem directory_respell (h : Respells f) (p : Text) :
    directory (respell f p) = respell f (directory p) := by
  rw [directory, directory, h.parent?_respell]
  have hdot : respell f ['.'] = ['.'] := h.point.respell_sep []
  cases parent? p with
  | none => exact hdot.symm
  | some parent =>
    have hempty : respell f parent = [] ↔ parent = [] := h.point.respell_eq_nil
    simp only [Option.map_some, List.isEmpty_iff, hempty]
    split_ifs
    · exact hdot.symm
    · rfl

theorem respell_join (h : Respells f) (p q : Text) :
    respell f (join p q) = join (respell f p) (respell f q) := by
  have hempty : respell f p = [] ↔ p = [] := h.slash.respell_eq_nil
  simp only [join, h.isAbsolute_respell, List.isEmpty_iff, Bool.or_eq_true, beq_iff_eq, hempty,
    h.slash.getLast?_eq]
  split_ifs
  · rfl
  · exact respell_append f p q
  · rw [respell_append, h.slash.respell_sep]

end Respells

end Path

/-! ## Letters -/

namespace Bytes

theorem toNat_letter (b : UInt8) : (Char.ofNat b.toNat).toNat = b.toNat :=
  Utf8.toNat_ofNat (.inl (b.toNat_lt.trans (by decide)))

theorem ofLetters_letters (bs : Bytes) : ofLetters bs.letters = bs := by
  rw [ofLetters, letters, List.map_map]
  refine List.map_id'' ?_ bs
  intro b
  rw [Function.comp_apply, toNat_letter, UInt8.ofNat_toNat]

theorem letters_inj {bs cs : Bytes} : bs.letters = cs.letters ↔ bs = cs := by
  constructor
  · intro h
    rw [← ofLetters_letters bs, h, ofLetters_letters]
  · rintro rfl
    rfl

theorem mem_ofLetters {b : UInt8} {t : Text} (h : b ∈ ofLetters t) :
    ∃ c ∈ t, UInt8.ofNat c.toNat = b := List.mem_map.1 h

theorem mem_letters {c : Char} {bs : Bytes} (h : c ∈ bs.letters) : ∃ b ∈ bs, b.toNat = c.toNat := by
  obtain ⟨b, hb, rfl⟩ := List.mem_map.1 h
  exact ⟨b, hb, (toNat_letter b).symm⟩

end Bytes

namespace Text

/-- the text with each character in the letters of its bytes -/
def lettered (t : Text) : Text := (Utf8.encode t).letters

theorem lettered_eq (t : Text) : t.lettered = respell (fun c => (Utf8.encodeChar c).letters) t := by
  rw [lettered, Utf8.encode, Bytes.letters, List.map_flatMap]
  rfl

theorem lettered_inj {s t : Text} : s.lettered = t.lettered ↔ s = t :=
  Bytes.letters_inj.trans Utf8.encode_inj

theorem keeps_lettered {sep : Char} (hsep : (Utf8.encodeChar sep).letters = [sep])
    (hascii : sep.toNat < 0x80) : Keeps (fun c => (Utf8.encodeChar c).letters) sep where
  self := hsep
  others c hc := by
    obtain ⟨lead, more, hbytes, -⟩ := Utf8.sequence_encodeChar c []
    refine ⟨by simp [hbytes, Bytes.letters], ?_⟩
    intro hmem
    obtain ⟨b, hb, hnumber⟩ := Bytes.mem_letters hmem
    rcases Utf8.mem_encodeChar hb with hsame | hbeyond
    · exact hc (Char.toNat_inj.1 (hsame.symm.trans hnumber))
    · omega

theorem respells_lettered : Path.Respells fun c => (Utf8.encodeChar c).letters :=
  ⟨keeps_lettered (by decide) (by decide), keeps_lettered (by decide) (by decide)⟩

/-- letters of a joined path and of a directory -/
theorem lettered_join (p q : Text) : (Path.join p q).lettered = Path.join p.lettered q.lettered := by
  simp only [lettered_eq]
  exact respells_lettered.respell_join p q

theorem lettered_directory (p : Text) : (Path.directory p).lettered = Path.directory p.lettered := by
  simp only [lettered_eq]
  exact (respells_lettered.directory_respell p).symm

end Text

end CodeCache
