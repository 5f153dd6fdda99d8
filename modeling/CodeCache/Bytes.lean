/-
Bytes: their letters, little-endian words and hexadecimal text.
-/
import CodeCache.Text

namespace CodeCache

/-- a byte string -/
abbrev Bytes := List UInt8

/-! ## Letters -/

namespace Bytes

/-- one character for each byte, with the byte's number: what reads a text for its ASCII characters
alone reads bytes by their letters, whatever they encode -/
def letters (bs : Bytes) : Text := bs.map fun b => Char.ofNat b.toNat

/-- the bytes of letters -/
def ofLetters (t : Text) : Bytes := t.map fun c => UInt8.ofNat c.toNat

end Bytes

/-! ## Words -/

namespace LittleEndian

/-- the low `width` bytes of `n`, least significant first -/
def encode : Nat → Nat → Bytes
  | 0, _ => []
  | width + 1, n => UInt8.ofNat n :: encode width (n / 256)

/-- the number written least significant byte first -/
def decode : Bytes → Nat
  | [] => 0
  | b :: bs => b.toNat + 256 * decode bs

end LittleEndian

/-! ## Hexadecimal text -/

namespace Hex

/-- the lowercase digit of a number below 16 -/
def digit (n : Nat) : Char := Char.ofNat (if n < 10 then 48 + n else 87 + n)

/-- two lowercase digits, high half first -/
def byte (b : UInt8) : Text := [digit (b.toNat / 16), digit (b.toNat % 16)]

/-- two lowercase digits a byte -/
def encode (bs : Bytes) : Text := bs.flatMap byte

/-- the value of a hexadecimal digit of either case -/
def value? (c : Char) : Option Nat :=
  if '0' ≤ c && c ≤ '9' then some (c.toNat - 48)
  else if 'a' ≤ c && c ≤ 'f' then some (c.toNat - 87)
  else if 'A' ≤ c && c ≤ 'F' then some (c.toNat - 55)
  else none

/-- the bytes written two digits each -/
def decode? : Text → Option Bytes
  | [] => some []
  | [_] => none
  | a :: b :: rest => do
    let hi ← value? a
    let lo ← value? b
    let bytes ← decode? rest
    some (UInt8.ofNat (16 * hi + lo) :: bytes)

/-- the digits of `n` without leading zeros, in front of `tail` -/
def pushDigits : Nat → Nat → Text → Text
  | 0, _, tail => tail
  | fuel + 1, n, tail =>
    if n < 16 then digit n :: tail else pushDigits fuel (n / 16) (digit (n % 16) :: tail)

/-- a number in hexadecimal, without leading zeros -/
def ofNat (n : Nat) : Text := pushDigits (n + 1) n []

end Hex

end CodeCache
