/-
Marks in texts, and what is put in their place.

A mark is replaced where it first occurs (`replaceFirst_append`), which is easy to tell behind a
character that it does not have (`replaceFirst_behind`). A filling that begins and ends with such
characters keeps its two sides apart: the mark occurs in the whole only if it occurs in front of the
filling, inside it or behind it (`infix_around_iff`).
-/
import Mathlib.Tactic
import CodeCache.Text

namespace CodeCache.Text

variable {mark before after : Text}

theorem contains_iff_infix {part t : Text} : contains part t = true ↔ part <:+: t := by
  induction t with
  | nil => rw [contains, List.isEmpty_iff, List.infix_nil]
  | cons c t ih =>
    rw [contains, Bool.or_eq_true, ih, List.infix_cons_iff, List.isPrefixOf_iff_prefix]

theorem contains_eq_false_iff {part t : Text} : contains part t = false ↔ ¬part <:+: t := by
  rw [← contains_iff_infix, Bool.not_eq_true]

/-! ## Occurrences -/

theorem not_infix_of_mem {t : Text} {c : Char} (hc : c ∈ mark) (ht : c ∉ t) : ¬mark <:+: t := by
  intro h
  exact ht (h.subset hc)

theorem prefix_of_prefix_append_cons {c : Char} (hc : c ∉ mark)
    (h : mark <+: before ++ c :: after) : mark <+: before := by
  have hpart : before ++ [c] <+: before ++ c :: after := ⟨after, by simp⟩
  rcases List.prefix_or_prefix_of_prefix h hpart with hmark | hmark
  · rcases List.prefix_concat_iff.1 hmark with rfl | hmark
    · exact absurd (by simp) hc
    · exact hmark
  · exact absurd (hmark.subset (by simp)) hc

/-- a character the mark does not have keeps what is around it apart -/
theorem infix_append_cons_iff {c : Char} (hc : c ∉ mark) :
    mark <:+: before ++ c :: after ↔ mark <:+: before ∨ mark <:+: after := by
  constructor
  · intro h
    induction before with
    | nil =>
      rcases List.infix_cons_iff.1 h with h | h
      · have hfront : mark <+: [] ++ c :: after := h
        exact Or.inl (prefix_of_prefix_append_cons hc hfront).isInfix
      · exact Or.inr h
    | cons b before ih =>
      rcases List.infix_cons_iff.1 h with h | h
      · have hfront : mark <+: b :: before ++ c :: after := h
        exact Or.inl (prefix_of_prefix_append_cons hc hfront).isInfix
      · rcases ih h with h | h
        · exact Or.inl (h.trans (List.suffix_cons b before).isInfix)
        · exact Or.inr h
  · rintro (h | h)
    · exact h.trans (List.prefix_append before _).isInfix
    · exact h.trans ((List.suffix_cons c after).trans (List.suffix_append before _)).isInfix

/-- a filling between two such characters -/
theorem infix_around_iff {c d : Char} (hc : c ∉ mark) (hd : d ∉ mark) (body : Text) :
    mark <:+: before ++ (c :: body ++ [d]) ++ after ↔
      mark <:+: before ∨ mark <:+: body ∨ mark <:+: after := by
  have hcut : before ++ (c :: body ++ [d]) ++ after = before ++ c :: (body ++ d :: after) := by simp
  rw [hcut, infix_append_cons_iff hc, infix_append_cons_iff hd]

/-! ## Replacing -/

/-- what stands in front of the mark, with all of the mark but its end, does not hold it already -/
theorem replaceFirst_append (hmark : mark ≠ []) (hfirst : ¬mark <:+: before ++ mark.dropLast)
    (filling after : Text) :
    replaceFirst mark filling (before ++ mark ++ after) = before ++ filling ++ after := by
  induction before with
  | nil =>
    obtain ⟨c, more, rfl⟩ := List.exists_cons_of_ne_nil hmark
    have hprefix : (c :: more).isPrefixOf? (c :: (more ++ after)) = some after :=
      List.isPrefixOf?_eq_some_iff_append_eq.2 rfl
    rw [List.nil_append, List.nil_append, List.cons_append, replaceFirst, hprefix]
  | cons c before ih =>
    have hnone : mark.isPrefixOf? (c :: (before ++ mark ++ after)) = none := by
      rw [Option.eq_none_iff_forall_ne_some]
      intro rest hrest
      -- an occurrence at the front would end before the mark itself does
      have hwhole : mark <+: c :: (before ++ mark ++ after) :=
        ⟨rest, List.isPrefixOf?_eq_some_iff_append_eq.1 hrest⟩
      have hpart : c :: before ++ mark.dropLast <+: c :: (before ++ mark ++ after) := by
        refine ⟨[mark.getLast hmark] ++ after, ?_⟩
        rw [List.append_assoc, ← List.append_assoc mark.dropLast, List.dropLast_append_getLast,
          List.cons_append, List.append_assoc]
      have hsize : mark.length ≤ (c :: before ++ mark.dropLast).length := by
        have hpos := List.length_pos_of_ne_nil hmark
        rw [List.length_append, List.length_cons, List.length_dropLast]
        omega
      exact hfirst (List.prefix_of_prefix_length_le hwhole hpart hsize).isInfix
    have hrest : ¬mark <:+: before ++ mark.dropLast := by
      intro h
      exact hfirst (h.trans (List.suffix_cons c _).isInfix)
    rw [List.cons_append, List.cons_append, replaceFirst, hnone]
    dsimp only
    rw [ih hrest]
    rfl

/-- behind a character the mark does not have, it is enough that it does not occur before -/
theorem replaceFirst_behind {c : Char} (hmark : mark ≠ []) (hlast : before.getLast? = some c)
    (hc : c ∉ mark) (hfirst : ¬mark <:+: before) (filling after : Text) :
    replaceFirst mark filling (before ++ mark ++ after) = before ++ filling ++ after := by
  refine replaceFirst_append hmark ?_ filling after
  obtain ⟨front, rfl⟩ := List.getLast?_eq_some_iff.1 hlast
  have hsize : mark.dropLast.length < mark.length := by
    have hpos := List.length_pos_of_ne_nil hmark
    rw [List.length_dropLast]
    omega
  rw [List.append_assoc, List.singleton_append, infix_append_cons_iff hc]
  rintro (h | h)
  · exact hfirst (h.trans (List.prefix_append front [c]).isInfix)
  · exact absurd h.length_le (Nat.not_le.2 hsize)

/-! ## Lines -/

/-- a character that is in no line, and does not end them, is not in the text of the lines -/
theorem not_mem_ofLines_cons {c : Char} {line : List Char} {lines : List String}
    (hline : c ∉ line ++ ['\n']) (hlines : c ∉ ofLines lines) :
    c ∉ ofLines (String.ofList line :: lines) := by
  rw [ofLines, List.flatMap_cons, String.toList_ofList, List.mem_append, not_or]
  exact ⟨hline, hlines⟩

end CodeCache.Text
