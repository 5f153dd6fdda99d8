/-
Texts cut into pieces.

- `splitOn_join`, `join_splitOn`: pieces that do not have the separator come back from the cut as they
  were, and the pieces of a text give the text.
- `splitFirst?_append`, `splitLast?_append`: where the first and the last separator is found.
- `splitWhere_append_cons`: a cut at a class of separators, told from the front.
- `dropped_cases`: a first character is cut off, or is not there.
-/
import Mathlib.Tactic
import CodeCache.Text

namespace CodeCache.Text

/-! ## A first character -/

/-- a character that is not in front is not cut off -/
theorem dropped_of_not_mem {c : Char} {t : Text} (h : c ∉ t.head?) :
    ([c].isPrefixOf? t).getD t = t := by
  cases t with
  | nil => rfl
  | cons x t =>
    have hx : c ≠ x := by
      rintro rfl
      exact h rfl
    simp [List.isPrefixOf?, hx]

/-- a text has the character in front of what is left, or is left as it is -/
theorem dropped_cases (c : Char) (t : Text) :
    t = c :: ([c].isPrefixOf? t).getD t ∨ c ∉ t.head? ∧ ([c].isPrefixOf? t).getD t = t := by
  by_cases h : c ∈ t.head?
  · obtain ⟨rest, rfl⟩ := List.head?_eq_some_iff.1 h
    left
    simp [List.isPrefixOf?]
  · right
    exact ⟨h, dropped_of_not_mem h⟩

/-! ## Every separator -/

/-- the pieces are those of the library's own cut -/
theorem splitOn_eq (sep : Char) (t : Text) : splitOn sep t = List.splitOn sep t := by
  unfold splitOn
  induction t with
  | nil => rfl
  | cons c t ih =>
    rw [splitWhere, ih, List.splitOn_cons_eq_if_modifyHead]
    split_ifs
    · rfl
    · obtain ⟨piece, pieces, h⟩ := List.exists_cons_of_ne_nil (List.splitOn_ne_nil sep t)
      rw [h]
      rfl

theorem mem_of_mem_splitOn {sep : Char} {t piece : Text} (h : piece ∈ splitOn sep t) :
    ∀ c ∈ piece, c ∈ t ∧ c ≠ sep := by
  rw [splitOn_eq] at h
  induction t generalizing piece with
  | nil =>
    rw [List.splitOn_nil, List.mem_singleton] at h
    subst h
    exact fun c hc => absurd hc List.not_mem_nil
  | cons x t ih =>
    rw [List.splitOn_cons_eq_if_modifyHead] at h
    split_ifs at h with hx
    · rcases List.mem_cons.1 h with rfl | h
      · exact fun c hc => absurd hc List.not_mem_nil
      · exact fun c hc => ⟨List.mem_cons_of_mem _ (ih h c hc).1, (ih h c hc).2⟩
    · obtain ⟨first, pieces, hsplit⟩ := List.exists_cons_of_ne_nil (List.splitOn_ne_nil sep t)
      rw [hsplit, List.modifyHead_cons, List.mem_cons] at h
      have hold : ∀ old ∈ first :: pieces, ∀ c ∈ old, c ∈ x :: t ∧ c ≠ sep := fun old hmem c hc =>
        have hc' := ih (hsplit ▸ hmem) c hc
        ⟨List.mem_cons_of_mem _ hc'.1, hc'.2⟩
      rcases h with rfl | h
      · intro c hc
        rcases List.mem_cons.1 hc with rfl | hc
        · exact ⟨List.mem_cons_self, fun hsep => hx (beq_iff_eq.2 hsep)⟩
        · exact hold first List.mem_cons_self c hc
      · exact hold piece (List.mem_cons_of_mem _ h)

theorem join_eq (sep : Text) (pieces : List Text) : join sep pieces = sep.intercalate pieces := by
  induction pieces with
  | nil => rfl
  | cons piece pieces ih =>
    cases pieces with
    | nil => simp [join]
    | cons next pieces => rw [List.intercalate_cons_cons, ← ih]; rfl

theorem join_begins {sep : Text} {pieces more : List Text} (h : pieces <+: more) :
    join sep pieces <+: join sep more := by
  obtain ⟨rest, rfl⟩ := h
  induction pieces with
  | nil => exact List.nil_prefix
  | cons piece pieces ih =>
    cases pieces with
    | nil =>
      cases rest with
      | nil => exact List.prefix_refl _
      | cons next rest =>
        rw [join_eq, join_eq, List.singleton_append, List.intercalate_cons_cons, List.append_assoc]
        simp
    | cons next pieces =>
      rw [join_eq, join_eq] at ih ⊢
      rw [List.cons_append, List.cons_append, List.intercalate_cons_cons,
        List.intercalate_cons_cons]
      exact (List.prefix_append_right_inj _).2 ih

theorem splitOn_join {sep : Char} {pieces : List Text} (hne : pieces ≠ [])
    (h : ∀ piece ∈ pieces, sep ∉ piece) : splitOn sep (join [sep] pieces) = pieces := by
  rw [join_eq, splitOn_eq, List.splitOn_intercalate sep h hne]

theorem join_splitOn (sep : Char) (t : Text) : join [sep] (splitOn sep t) = t := by
  rw [join_eq, splitOn_eq, List.intercalate_splitOn]

/-- the first pieces of a text are the pieces of a beginning of it -/
theorem join_begins_of_splitOn {sep : Char} {t : Text} {pieces : List Text}
    (h : pieces <+: splitOn sep t) : join [sep] pieces <+: t := by
  have hjoin : join [sep] pieces <+: join [sep] (splitOn sep t) := join_begins h
  rwa [join_splitOn] at hjoin

theorem mem_of_mem_join {sep : Text} {pieces : List Text} {c : Char} (h : c ∈ join sep pieces) :
    c ∈ sep ∨ ∃ piece ∈ pieces, c ∈ piece := by
  induction pieces with
  | nil => exact absurd h List.not_mem_nil
  | cons piece pieces ih =>
    cases pieces with
    | nil => exact .inr ⟨piece, List.mem_cons_self, h⟩
    | cons next pieces =>
      simp only [join, List.mem_append] at h
      rcases h with (hc | hc) | hc
      · exact .inr ⟨piece, List.mem_cons_self, hc⟩
      · exact .inl hc
      · exact (ih hc).imp_right fun ⟨other, hother, hc⟩ =>
          ⟨other, List.mem_cons_of_mem _ hother, hc⟩

/-! ## The first separator -/

theorem splitFirst?_append {sep : Char} {a : Text} (h : sep ∉ a) (b : Text) :
    splitFirst? sep (a ++ sep :: b) = some (a, b) := by
  induction a with
  | nil => simp [splitFirst?]
  | cons c a ih =>
    obtain ⟨hc, ha⟩ := not_or.1 (mt List.mem_cons.2 h)
    simp [splitFirst?, ih ha, Ne.symm hc]

/-! ## The last separator -/

theorem splitLast?_of_not_mem {sep : Char} {t : Text} (h : sep ∉ t) : splitLast? sep t = none := by
  induction t with
  | nil => rfl
  | cons c t ih =>
    obtain ⟨hc, ht⟩ := not_or.1 (mt List.mem_cons.2 h)
    simp [splitLast?, ih ht, Ne.symm hc]

theorem splitLast?_append {sep : Char} {b : Text} (h : sep ∉ b) (a : Text) :
    splitLast? sep (a ++ sep :: b) = some (a, b) := by
  induction a with
  | nil => simp [splitLast?, splitLast?_of_not_mem h]
  | cons c a ih => simp [splitLast?, ih]

theorem splitLast?_append_of_some {sep : Char} {t b c : Text} (h : splitLast? sep t = some (b, c))
    (a : Text) : splitLast? sep (a ++ t) = some (a ++ b, c) := by
  induction a with
  | nil => exact h
  | cons x a ih => rw [List.cons_append, splitLast?, ih, List.cons_append]

/-- what is behind the last one has none -/
theorem exists_splitLast? {sep : Char} {t : Text} (h : sep ∈ t) :
    ∃ a b, splitLast? sep t = some (a, b) ∧ sep ∉ b := by
  induction t with
  | nil => exact absurd h List.not_mem_nil
  | cons c t ih =>
    by_cases ht : sep ∈ t
    · obtain ⟨a, b, hcut, hb⟩ := ih ht
      exact ⟨c :: a, b, splitLast?_append_of_some hcut [c], hb⟩
    · obtain rfl := (List.mem_cons.1 h).resolve_right ht
      exact ⟨[], t, splitLast?_append ht [], ht⟩

theorem eq_of_splitLast? {sep : Char} {t a b : Text} (h : splitLast? sep t = some (a, b)) :
    t = a ++ sep :: b := by
  induction t generalizing a with
  | nil => cases h
  | cons c t ih =>
    rw [splitLast?] at h
    cases ht : splitLast? sep t with
    | some cut =>
      rw [ht] at h
      cases h
      rw [ih ht]
      rfl
    | none =>
      rw [ht] at h
      simp only [beq_iff_eq, Option.ite_none_right_eq_some, Option.some.injEq, Prod.mk.injEq] at h
      obtain ⟨rfl, rfl, rfl⟩ := h
      rfl

/-! ## A class of separators -/

section Class

variable {p : Char → Bool} {piece : Text}

theorem splitWhere_of_piece (h : ∀ c ∈ piece, p c = false) : splitWhere p piece = [piece] := by
  induction piece with
  | nil => rfl
  | cons c piece ih =>
    obtain ⟨hc, hpiece⟩ := List.forall_mem_cons.1 h
    simp [splitWhere, hc, ih hpiece, pushFirst]

theorem splitWhere_append_cons (h : ∀ c ∈ piece, p c = false) {sep : Char} (hsep : p sep = true)
    (rest : Text) : splitWhere p (piece ++ sep :: rest) = piece :: splitWhere p rest := by
  induction piece with
  | nil => simp [splitWhere, hsep]
  | cons c piece ih =>
    obtain ⟨hc, hpiece⟩ := List.forall_mem_cons.1 h
    simp [splitWhere, hc, ih hpiece, pushFirst]

end Class

end CodeCache.Text
