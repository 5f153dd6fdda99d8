/-
Blanks at the ends of texts.

Trimming takes blanks away at both ends and leaves a text that has none there. These two facts fix
its result (`trim_around`, `exists_trim`), so nobody has to look at how it is computed.
-/
import Mathlib.Data.List.TakeWhile
import Mathlib.Tactic
import CodeCache.Text

namespace CodeCache.Text

/-- only blanks -/
def Blank (t : Text) : Prop := ∀ c ∈ t, isBlank c = true

/-- neither end is a blank -/
structure Trimmed (t : Text) : Prop where
  first : ∀ c ∈ t.head?, isBlank c = false
  last : ∀ c ∈ t.getLast?, isBlank c = false

-- the instance is named, since another one would go through all characters
instance (t : Text) : Decidable t.Blank := List.decidableBAll _ t

instance (t : Text) : Decidable t.Trimmed :=
  decidable_of_iff (t.head?.all (!isBlank ·) = true ∧ t.getLast?.all (!isBlank ·) = true) <| by
    simp only [Option.all_eq_true, Bool.not_eq_true', ← Option.mem_def]
    exact ⟨fun h => ⟨h.1, h.2⟩, fun h => ⟨h.first, h.last⟩⟩

variable {p : Char → Bool} {lead t trail : Text}

/-! ## One end -/

theorem head?_dropWhile {c : Char} (hc : c ∈ (t.dropWhile p).head?) : p c = false := by
  have hfirst := List.head?_dropWhile_not p t
  rwa [Option.mem_def.1 hc] at hfirst

theorem trimEnd_append (hlast : ∀ c ∈ t.getLast?, p c = false) (htrail : ∀ c ∈ trail, p c = true) :
    trimEnd p (t ++ trail) = t := by
  have hend : ∀ c ∈ t.reverse.head?, p c = false := by
    rwa [List.head?_reverse]
  have hstop : t.reverse.dropWhile p = t.reverse := by
    cases hrev : t.reverse with
    | nil => rfl
    | cons c more =>
      rw [hrev] at hend
      exact List.dropWhile_cons_of_neg (by simp [hend c rfl])
  have htrail' : ∀ c ∈ trail.reverse, p c = true := by
    intro c hc
    exact htrail c (List.mem_reverse.1 hc)
  rw [trimEnd, List.reverse_append, List.dropWhile_append_of_pos htrail', hstop, List.reverse_reverse]

theorem exists_trimEnd (p : Char → Bool) (t : Text) :
    ∃ trail, t = trimEnd p t ++ trail ∧ (∀ c ∈ trail, p c = true) ∧
      ∀ c ∈ (trimEnd p t).getLast?, p c = false := by
  refine ⟨(t.reverse.takeWhile p).reverse, ?_, ?_, ?_⟩
  · rw [trimEnd, ← List.reverse_append, List.takeWhile_append_dropWhile, List.reverse_reverse]
  · intro c hc
    exact List.mem_takeWhile_imp (List.mem_reverse.1 hc)
  · intro c hc
    rw [trimEnd, List.getLast?_reverse] at hc
    exact head?_dropWhile hc

/-! ## Both ends -/

/-- **What is left of a text between blanks is the text**, if it has none at its own ends. -/
theorem trim_around (hlead : lead.Blank) (ht : t.Trimmed) (htrail : trail.Blank) :
    trim (lead ++ t ++ trail) = t := by
  rw [trim, List.append_assoc, List.dropWhile_append_of_pos hlead]
  cases t with
  | nil =>
    have hdrop : trail.dropWhile isBlank = [] := List.dropWhile_eq_nil_iff.2 htrail
    rw [List.nil_append, hdrop]
    rfl
  | cons c more =>
    rw [List.cons_append, List.dropWhile_cons_of_neg (by simp [ht.first c rfl]), ← List.cons_append]
    exact trimEnd_append ht.last htrail

theorem exists_trim (t : Text) :
    ∃ lead trail, t = lead ++ trim t ++ trail ∧ lead.Blank ∧ trail.Blank ∧ (trim t).Trimmed := by
  obtain ⟨trail, hsplit, htrail, hlast⟩ := exists_trimEnd isBlank (t.dropWhile isBlank)
  refine ⟨t.takeWhile isBlank, trail, ?_, ?_, htrail, ?_, hlast⟩
  · rw [List.append_assoc, trim, ← hsplit, List.takeWhile_append_dropWhile]
  · intro c hc
    exact List.mem_takeWhile_imp hc
  · intro c hc
    have hhead : c ∈ (t.dropWhile isBlank).head? := by
      rw [hsplit]
      rw [trim] at hc
      exact List.mem_head?_append_of_mem_head? hc
    exact head?_dropWhile hhead

theorem trim_of_trimmed (ht : t.Trimmed) : trim t = t := by
  have hnone : Blank [] := by simp [Blank]
  simpa using trim_around hnone ht hnone

theorem trimmed_of_forall (h : ∀ c ∈ t, isBlank c = false) : t.Trimmed where
  first := fun c hc => h c (List.mem_of_mem_head? hc)
  last := fun c hc => h c (List.mem_of_getLast? hc)

theorem Trimmed.append {s : Text} (hs : s.Trimmed) (ht : t.Trimmed) : Trimmed (s ++ t) where
  first := by
    intro c hc
    rw [List.head?_append, Option.mem_def, Option.or_eq_some_iff] at hc
    rcases hc with hc | ⟨-, hc⟩
    · exact hs.first c hc
    · exact ht.first c hc
  last := by
    intro c hc
    rw [List.getLast?_append, Option.mem_def, Option.or_eq_some_iff] at hc
    rcases hc with hc | ⟨-, hc⟩
    · exact ht.last c hc
    · exact hs.last c hc

theorem trim_append_left (hlead : lead.Blank) (t : Text) : trim (lead ++ t) = trim t := by
  obtain ⟨before, after, hsplit, hbefore, hafter, htrim⟩ := exists_trim t
  have hblank : Blank (lead ++ before) := List.forall_mem_append.2 ⟨hlead, hbefore⟩
  calc trim (lead ++ t) = trim (lead ++ before ++ trim t ++ after) := by
        conv_lhs => rw [hsplit]
        simp
    _ = trim t := trim_around hblank htrim hafter

theorem trim_append_right (t : Text) (htrail : trail.Blank) : trim (t ++ trail) = trim t := by
  obtain ⟨before, after, hsplit, hbefore, hafter, htrim⟩ := exists_trim t
  have hblank : Blank (after ++ trail) := List.forall_mem_append.2 ⟨hafter, htrail⟩
  calc trim (t ++ trail) = trim (before ++ trim t ++ (after ++ trail)) := by
        conv_lhs => rw [hsplit]
        simp
    _ = trim t := trim_around hbefore htrim hblank

end CodeCache.Text
