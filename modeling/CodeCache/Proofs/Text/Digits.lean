/-
Decimal digits: a number written and read back.

`digitsValue_ofNat` is the round trip. A reader of a longer text also needs to know where the digits
stop (`isDigit_of_mem_ofNat`) and that no zero is in front of others (`eq_zero_of_ofNat`).

Which texts are read as which number is said by `Numeral`, in positional notation: `toNat?` accepts
these and no others (`toNat?_eq_some_iff`).
-/
import Mathlib.Data.Nat.Digits.Defs
import Mathlib.Tactic
import CodeCache.Text

namespace CodeCache.Text

theorem ofNat_eq (n : Nat) : ofNat n = Nat.toDigits 10 n := by
  rw [ofNat, Nat.toString_eq_repr, Nat.toList_repr]

theorem ofNat_ne_nil (n : Nat) : ofNat n ≠ [] := by
  rw [ofNat_eq]
  exact Nat.toDigits_ne_nil

theorem isDigit_of_mem_ofNat {n : Nat} {c : Char} (h : c ∈ ofNat n) : isDigit c = true := by
  rw [ofNat_eq] at h
  exact Nat.isDigit_of_mem_toDigits (by decide) (by decide) h

theorem digitsValue_ofNat (n : Nat) : digitsValue 0 (ofNat n) = n := by
  have hfold : digitsValue 0 (ofNat n) = Nat.ofDigitChars 10 (ofNat n) 0 := by
    rw [Nat.ofDigitChars_eq_foldl]
    rfl
  rw [hfold, ofNat_eq, Nat.ofDigitChars_ten_toDigits]

/-- only zero starts with a zero -/
theorem eq_zero_of_ofNat {n : Nat} {t : Text} (h : ofNat n = '0' :: t) : n = 0 := by
  induction n using Nat.strong_induction_on generalizing t with
  | _ n ih =>
    rw [ofNat_eq] at h
    rcases Nat.lt_or_ge n 10 with hn | hn
    · rw [Nat.toDigits_of_lt_base hn] at h
      exact Nat.digitChar_eq_zero.1 (List.cons.inj h).1
    · rw [Nat.toDigits_of_base_le (by decide) hn] at h
      cases hhead : ofNat (n / 10) with
      | nil => exact absurd hhead (ofNat_ne_nil _)
      | cons c more =>
        rw [← ofNat_eq, hhead] at h
        rw [(List.cons.inj h).1] at hhead
        have hzero : n / 10 = 0 := ih (n / 10) (by omega) hhead
        omega

/-! ## Numerals -/

/-- a text that writes a number: one or more of the digits 0 to 9, leading zeros allowed -/
structure Numeral (t : Text) (n : Nat) : Prop where
  nonempty : t ≠ []
  digits : ∀ c ∈ t, '0' ≤ c ∧ c ≤ '9'
  value : Nat.ofDigits 10 (t.reverse.map fun c => c.toNat - '0'.toNat) = n

theorem isDigit_iff {c : Char} : isDigit c = true ↔ '0' ≤ c ∧ c ≤ '9' := by
  simp [isDigit]

theorem digitsValue_eq_ofDigits (t : Text) :
    digitsValue 0 t = Nat.ofDigits 10 (t.reverse.map fun c => c.toNat - '0'.toNat) := by
  -- the last digit is the first one of the reversed text
  induction t using List.reverseRecOn with
  | nil => rfl
  | append_singleton t c ih =>
    rw [digitsValue, List.foldl_append, List.foldl_cons, List.foldl_nil, ← digitsValue, ih,
      List.reverse_append, List.reverse_singleton, List.singleton_append, List.map_cons,
      Nat.ofDigits_cons, Nat.add_comm]
    rfl

theorem toNat?_eq_some_iff {t : Text} {n : Nat} : toNat? t = some n ↔ Numeral t n := by
  have hdigits : t.all isDigit = true ↔ ∀ c ∈ t, '0' ≤ c ∧ c ≤ '9' := by
    simp only [List.all_eq_true, isDigit_iff]
  constructor
  · intro h
    rw [toNat?] at h
    split_ifs at h with hbad
    simp only [Bool.or_eq_true, Bool.not_eq_true', not_or, Bool.not_eq_true,
      Bool.not_eq_false] at hbad
    exact ⟨by simpa using hbad.1, hdigits.1 hbad.2,
      (digitsValue_eq_ofDigits t).symm.trans (Option.some.inj h)⟩
  · rintro ⟨hne, hall, hvalue⟩
    have hempty : t.isEmpty = false := by simpa using hne
    rw [toNat?, hempty, hdigits.2 hall, digitsValue_eq_ofDigits, hvalue]
    rfl

theorem numeral_ofNat (n : Nat) : Numeral (ofNat n) n where
  nonempty := ofNat_ne_nil n
  digits := fun _ hc => isDigit_iff.1 (isDigit_of_mem_ofNat hc)
  value := by rw [← digitsValue_eq_ofDigits, digitsValue_ofNat]

theorem isBlank_of_isDigit {c : Char} (h : isDigit c = true) : isBlank c = false := by
  obtain ⟨hlow, hhigh⟩ := isDigit_iff.1 h
  have hlow' : 48 ≤ c.toNat := hlow
  have hhigh' : c.toNat ≤ 57 := hhigh
  simp [isBlank]
  omega

end CodeCache.Text
