/-
Association lists in which putting a key takes away what was there under it.

The tables of handlers, of slots and of nodes are all kept this way, so one lemma, `lookup_put`, reads
a put entry and every other one back.
-/
import Mathlib.Tactic

namespace CodeCache.Association

variable {α β : Type} [BEq α] [LawfulBEq α] [DecidableEq α]

theorem lookup_cons_ite (key other : α) (v : β) (l : List (α × β)) :
    ((key, v) :: l).lookup other = if other = key then some v else l.lookup other := by
  rw [List.lookup_cons]
  by_cases h : other = key
  · rw [if_pos h, beq_iff_eq.2 h]
  · rw [if_neg h, beq_eq_false_iff_ne.2 h]

/-- what is left once the entries of a key are gone -/
theorem lookup_filter_ne (key other : α) (l : List (α × β)) :
    (l.filter (·.1 != key)).lookup other = if other = key then none else l.lookup other := by
  induction l with
  | nil => simp
  | cons entry l ih =>
    obtain ⟨k, v⟩ := entry
    by_cases hk : k = key
    · subst hk
      rw [List.filter_cons_of_neg (by simp), ih, lookup_cons_ite]
      split_ifs <;> rfl
    · rw [List.filter_cons_of_pos (by simpa using hk), lookup_cons_ite, lookup_cons_ite, ih]
      by_cases ho : other = k
      · subst ho
        simp [hk]
      · rw [if_neg ho, if_neg ho]

theorem lookup_put (key other : α) (v : β) (l : List (α × β)) :
    ((key, v) :: l.filter (·.1 != key)).lookup other =
      if other = key then some v else l.lookup other := by
  rw [lookup_cons_ite, lookup_filter_ne]
  split_ifs <;> rfl

end CodeCache.Association
