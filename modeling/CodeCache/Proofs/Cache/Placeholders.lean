/-
Placeholders have their declared length, in code units and in bytes.

A placeholder of two units or more is a literal: two quotes around a run of filler (`source_eq`). The
filler takes one code unit and three bytes, so both measures of the run are multiples of its length.
The size in bytes is computed in words: the length less the two quotes is below 2 ^ 32, so neither the
product by three nor the sum with the quotes reaches 2 ^ 64 (`toNat_fillerSize`, `toNat_utf8Size`).

Main result, `source_measured`, for every length that a header can declare.
-/
import CodeCache.Proofs.Text.Units
import CodeCache.Proofs.Text.Utf8
import CodeCache.Source

namespace CodeCache.Placeholder

/-- how many bytes the filler of a placeholder takes, as it is computed -/
def fillerSize (length : UInt32) : UInt64 :=
  (length - 2).toUInt64 * UInt64.ofNat (Utf8.sizeOf filler)

section Measures

variable {length : UInt32}

/-- there is room for two quotes, or not -/
theorem le_one_iff : length ≤ 1 ↔ ¬2 ≤ length := by
  rw [UInt32.le_iff_toNat_le, UInt32.le_iff_toNat_le, Nat.not_le]
  exact Nat.lt_succ_iff.symm

/-- what is left for the filler when the quotes are taken off -/
theorem toNat_sub_two (h : 2 ≤ length) : (length - 2).toNat = length.toNat - 2 :=
  UInt32.toNat_sub_of_le length 2 h

theorem source_eq (h : 2 ≤ length) :
    source length = '"' :: List.replicate (length - 2).toNat filler ++ ['"'] := by
  rw [source, if_neg (le_one_iff.not.2 (not_not.2 h)), toNat_sub_two h]

theorem utf8Size_eq (h : 2 ≤ length) : utf8Size length = 2 + fillerSize length := by
  rw [utf8Size, if_neg (le_one_iff.not.2 (not_not.2 h)), fillerSize]

/-! ## Sizes in bytes -/

/-- the product is that of the numbers: three times what 32 bits hold fits into 64 -/
theorem toNat_fillerSize (length : UInt32) : (fillerSize length).toNat = (length - 2).toNat * 3 := by
  have hfiller : (UInt64.ofNat (Utf8.sizeOf filler)).toNat = 3 := rfl
  have hbound : (length - 2).toNat < 2 ^ 32 := (length - 2).toNat_lt
  rw [fillerSize, UInt64.toNat_mul, UInt32.toNat_toUInt64, hfiller]
  exact Nat.mod_eq_of_lt (by omega)

/-- and so is the sum -/
theorem toNat_utf8Size (h : 2 ≤ length) :
    (utf8Size length).toNat = 2 + (fillerSize length).toNat := by
  have hquotes : (2 : UInt64).toNat = 2 := rfl
  have hbound : (length - 2).toNat < 2 ^ 32 := (length - 2).toNat_lt
  rw [utf8Size_eq h, UInt64.toNat_add, hquotes, toNat_fillerSize]
  exact Nat.mod_eq_of_lt (by omega)

/-- each character of the filler takes three bytes, each quote one -/
theorem size_source (h : 2 ≤ length) :
    Utf8.size (source length) = 2 + (length - 2).toNat * 3 := by
  have hfiller : Utf8.sizeOf filler = 3 := rfl
  have hquote : Utf8.sizeOf '"' = 1 := rfl
  rw [source_eq h, Utf8.size_eq_sum]
  simp only [List.cons_append, List.map_cons, List.map_append, List.map_replicate, List.sum_cons,
    List.sum_append, List.sum_replicate, List.map_nil, List.sum_nil, hfiller, hquote, smul_eq_mul]
  omega

theorem length_encode_source (length : UInt32) :
    (Utf8.encode (source length)).length = (utf8Size length).toNat := by
  rw [Utf8.length_encode]
  by_cases h : 2 ≤ length
  · rw [size_source h, toNat_utf8Size h, toNat_fillerSize]
  · rw [source, utf8Size, if_pos (le_one_iff.2 h), if_pos (le_one_iff.2 h)]
    rfl

end Measures

/-- **Placeholders have the declared length in both measures.** For every length that a header can
declare, the placeholder has that many code units, or none if there is no room for two quotes, and
its size in bytes is what is computed without building it. The computation stays below the bounds of
its words: the difference, the product and the sum are those of the numbers. From length 2 on the
placeholder is one string literal: between its quotes stands no quote, no backslash and nothing that
ends a line. -/
theorem source_measured (length : UInt32) :
    Text.units (source length) = (if 2 ≤ length then length.toNat else 0) ∧
    (utf8Size length).toNat = (Utf8.encode (source length)).length ∧
    (2 ≤ length →
      ((length - 2).toNat = length.toNat - 2 ∧
        (fillerSize length).toNat = (length - 2).toNat * Utf8.sizeOf filler ∧
        utf8Size length = 2 + fillerSize length ∧
        (utf8Size length).toNat = 2 + (fillerSize length).toNat) ∧
      ∃ inside, source length = '"' :: inside ++ ['"'] ∧
        ∀ c ∈ inside, c ≠ '"' ∧ c ≠ '\\' ∧ Source.isLineEnd c = false) := by
  refine ⟨?_, (length_encode_source length).symm, ?_⟩
  · rw [units_source]
    have hroom : length.toNat ≤ 1 ↔ ¬2 ≤ length := UInt32.le_iff_toNat_le.symm.trans le_one_iff
    simp only [hroom, ite_not]
  · intro h
    refine ⟨⟨toNat_sub_two h, toNat_fillerSize length, utf8Size_eq h, toNat_utf8Size h⟩, _,
      source_eq h, ?_⟩
    intro c hc
    rw [List.eq_of_mem_replicate hc]
    decide

/-- the longest placeholder: 2 ^ 32 - 1 code units, and more than 2 ^ 33 bytes -/
theorem source_measured_longest :
    Text.units (source 0xFFFFFFFF) = 4294967295 ∧
    (Utf8.encode (source 0xFFFFFFFF)).length = 12884901881 ∧
    (2 : UInt32) ≤ 0xFFFFFFFF ∧
    ∃ inside, source 0xFFFFFFFF = '"' :: inside ++ ['"'] ∧
      ∀ c ∈ inside, c ≠ '"' ∧ c ≠ '\\' ∧ Source.isLineEnd c = false := by
  obtain ⟨hunits, hbytes, hliteral⟩ := source_measured 0xFFFFFFFF
  have hroom : (2 : UInt32) ≤ 0xFFFFFFFF := by decide
  have hcomputed : (utf8Size 0xFFFFFFFF).toNat = 12884901881 := by decide
  exact ⟨hunits, hbytes.symm.trans hcomputed, hroom, (hliteral hroom).2⟩

end CodeCache.Placeholder
