/-
Bytes in hexadecimal: two lowercase digits for each byte, read back two by two.
-/
import Mathlib.Tactic
import CodeCache.Bytes

namespace CodeCache.Hex

/-- a digit of those that are written: decimal, or a lowercase letter up to `f` -/
def IsDigit (c : Char) : Prop := ('0' ≤ c ∧ c ≤ '9') ∨ ('a' ≤ c ∧ c ≤ 'f')

instance (c : Char) : Decidable (IsDigit c) := by
  unfold IsDigit; infer_instance

theorem isDigit_digit {n : Nat} (h : n < 16) : IsDigit (digit n) := by
  interval_cases n <;> decide

theorem value?_digit {n : Nat} (h : n < 16) : value? (digit n) = some n := by
  interval_cases n <;> decide

/-- the digits of bytes put together are their digits put together -/
theorem encode_flatten (parts : List Bytes) : encode parts.flatten = (parts.map encode).flatten := by
  induction parts with
  | nil => rfl
  | cons part parts ih =>
    rw [List.flatten_cons, List.map_cons, List.flatten_cons, ← ih, encode, List.flatMap_append]
    rfl

theorem length_encode (bs : Bytes) : (encode bs).length = 2 * bs.length := by
  induction bs with
  | nil => rfl
  | cons b bs ih =>
    rw [encode, List.flatMap_cons, List.length_append, ← encode, ih, List.length_cons, byte]
    simp only [List.length_cons, List.length_nil]
    omega

theorem isDigit_of_mem_encode {bs : Bytes} {c : Char} (h : c ∈ encode bs) : IsDigit c := by
  obtain ⟨b, -, hc⟩ := List.mem_flatMap.1 h
  have hb : b.toNat < 256 := b.toNat_lt
  simp only [byte, List.mem_cons, List.not_mem_nil, or_false] at hc
  rcases hc with rfl | rfl
  · exact isDigit_digit (by omega)
  · exact isDigit_digit (by omega)

/-- bytes are read back from their digits -/
theorem decode?_encode (bs : Bytes) : decode? (encode bs) = some bs := by
  induction bs with
  | nil => rfl
  | cons b bs ih =>
    have hb : b.toNat < 256 := b.toNat_lt
    have hhigh : value? (digit (b.toNat / 16)) = some (b.toNat / 16) := value?_digit (by omega)
    have hlow : value? (digit (b.toNat % 16)) = some (b.toNat % 16) := value?_digit (by omega)
    have hcons : encode (b :: bs) = digit (b.toNat / 16) :: digit (b.toNat % 16) :: encode bs := rfl
    rw [hcons, decode?, hhigh, hlow, ih]
    simp only [bind, Option.bind_some, Nat.div_add_mod, UInt8.ofNat_toNat]

end CodeCache.Hex
