/-
Lengths in code units, which engines count sources by: of texts put together, and of placeholders.
-/
import Mathlib.Tactic
import CodeCache.Cache.Placeholder

namespace CodeCache

namespace Text

theorem units_eq_sum (t : Text) : units t = (t.map unitsOf).sum := by
  rw [List.sum_eq_foldl, List.foldl_map]
  rfl

theorem units_append (s t : Text) : units (s ++ t) = units s + units t := by
  simp [units_eq_sum]

end Text

/-- the placeholder has the declared length, except for length 1 -/
theorem Placeholder.units_source (length : UInt32) :
    Text.units (source length) = if length.toNat ≤ 1 then 0 else length.toNat := by
  unfold source
  by_cases h : length ≤ 1
  · have h' : length.toNat ≤ 1 := UInt32.le_iff_toNat_le.mp h
    rw [if_pos h, if_pos h']
    rfl
  · have h' : ¬length.toNat ≤ 1 := fun hle => h (UInt32.le_iff_toNat_le.mpr hle)
    have hquote : Text.unitsOf '"' = 1 := by decide
    have hfiller : Text.unitsOf filler = 1 := by decide
    rw [if_neg h, if_neg h', Text.units_eq_sum]
    simp [hquote, hfiller]
    omega

end CodeCache
