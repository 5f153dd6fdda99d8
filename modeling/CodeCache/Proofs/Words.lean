/-
Little-endian words.

For any width: `decode_encode` (a word below 256 ^ width reads back), `encode_decode` (the bytes of a
word are the bytes it was read from), `decode_lt` (a word is below 256 ^ width), `encode_add` (a wide
word is its low part in front of its high part) and `encode_inj` (different words have different
bytes).
-/
import Mathlib.Tactic
import CodeCache.Bytes

namespace CodeCache.LittleEndian

theorem length_encode (width n : Nat) : (encode width n).length = width := by
  induction width generalizing n with
  | zero => rfl
  | succ width ih => simp [encode, ih]

theorem decode_encode (width n : Nat) : decode (encode width n) = n % 256 ^ width := by
  induction width generalizing n with
  | zero => simp [encode, decode, Nat.mod_one]
  | succ width ih =>
    have hlow : (UInt8.ofNat n).toNat = n % 256 := UInt8.toNat_ofNat'
    simp only [encode, decode, ih, hlow]
    rw [Nat.pow_succ', Nat.mod_mul]

theorem encode_decode (bs : Bytes) : encode bs.length (decode bs) = bs := by
  induction bs with
  | nil => rfl
  | cons b bs ih =>
    have hb : b.toNat < 256 := UInt8.toNat_lt b
    have hdiv : (b.toNat + 256 * decode bs) / 256 = decode bs := by omega
    have hhead : UInt8.ofNat (b.toNat + 256 * decode bs) = b := by
      apply UInt8.toNat_inj.mp
      have hlow : (UInt8.ofNat (b.toNat + 256 * decode bs)).toNat =
          (b.toNat + 256 * decode bs) % 256 := UInt8.toNat_ofNat'
      omega
    simp only [List.length_cons, encode, decode, hdiv, ih, hhead]

theorem decode_lt (bs : Bytes) : decode bs < 256 ^ bs.length := by
  induction bs with
  | nil => exact Nat.one_pos
  | cons b bs ih =>
    have hb : b.toNat < 256 := UInt8.toNat_lt b
    simp only [decode, List.length_cons, Nat.pow_succ']
    omega

theorem encode_add (low high n : Nat) :
    encode (low + high) n = encode low n ++ encode high (n / 256 ^ low) := by
  induction low generalizing n with
  | zero => simp [encode]
  | succ low ih =>
    rw [Nat.succ_add]
    simp only [encode, ih, List.cons_append]
    rw [Nat.div_div_eq_div_mul, ← Nat.pow_succ']

/-- below the bound, different words have different bytes -/
theorem encode_inj {width m n : Nat} (hm : m < 256 ^ width) (hn : n < 256 ^ width) :
    encode width m = encode width n ↔ m = n := by
  constructor
  · intro h
    have hdec := congrArg decode h
    rwa [decode_encode, decode_encode, Nat.mod_eq_of_lt hm, Nat.mod_eq_of_lt hn] at hdec
  · intro h
    rw [h]

end CodeCache.LittleEndian
