/-
UTF-8: encoding texts, and decoding bytes with the exact place and extent of the first defect.

Decoding follows the table of well-formed byte sequences: a lead byte fixes how many continuation
bytes follow, and the first of them is restricted after E0, ED, F0 and F4 (no overlong forms, no
surrogates, nothing above U+10FFFF). A defect covers the longest run of bytes that a well-formed
sequence could have started with, at least one byte.
-/
import CodeCache.Bytes

namespace CodeCache.Utf8

/-! ## Encoding -/

/-- the byte sequence of one character -/
def encodeChar (c : Char) : Bytes :=
  let n := c.toNat
  if n < 0x80 then [UInt8.ofNat n]
  else if n < 0x800 then [UInt8.ofNat (0xC0 + n / 64), UInt8.ofNat (0x80 + n % 64)]
  else if n < 0x10000 then
    [UInt8.ofNat (0xE0 + n / 4096), UInt8.ofNat (0x80 + n / 64 % 64), UInt8.ofNat (0x80 + n % 64)]
  else
    [UInt8.ofNat (0xF0 + n / 262144), UInt8.ofNat (0x80 + n / 4096 % 64),
      UInt8.ofNat (0x80 + n / 64 % 64), UInt8.ofNat (0x80 + n % 64)]

def encode (t : Text) : Bytes := t.flatMap encodeChar

/-- how many bytes a character takes -/
def sizeOf (c : Char) : Nat :=
  if c.toNat < 0x80 then 1 else if c.toNat < 0x800 then 2 else if c.toNat < 0x10000 then 3 else 4

/-- how many bytes a text takes -/
def size (t : Text) : Nat := t.foldl (fun n c => n + sizeOf c) 0

/-! ## Decoding -/

/-- what the bytes at one position begin with -/
inductive Sequence where
  /-- a character of `size` bytes -/
  | scalar (c : Char) (size : Nat)
  /-- `size` bytes that no well-formed sequence continues -/
  | malformed (size : Nat)
  /-- the bytes end before the sequence does -/
  | truncated
deriving DecidableEq, Repr

/-- a byte of the form 10xxxxxx -/
def isContinuation (b : UInt8) : Bool := 0x80 ≤ b && b ≤ 0xBF

/-- the bytes allowed after a lead byte -/
def isSecond (lead b : UInt8) : Bool :=
  if lead == 0xE0 then 0xA0 ≤ b && b ≤ 0xBF
  else if lead == 0xED then 0x80 ≤ b && b ≤ 0x9F
  else if lead == 0xF0 then 0x90 ≤ b && b ≤ 0xBF
  else if lead == 0xF4 then 0x80 ≤ b && b ≤ 0x8F
  else isContinuation b

/-- the length of the sequences a byte leads; zero for a byte that leads none -/
def leadLength (b : UInt8) : Nat :=
  if b < 0x80 then 1
  else if 0xC2 ≤ b && b ≤ 0xDF then 2
  else if 0xE0 ≤ b && b ≤ 0xEF then 3
  else if 0xF0 ≤ b && b ≤ 0xF4 then 4
  else 0

/-- the low six bits of a continuation byte -/
def payload (b : UInt8) : Nat := b.toNat % 64

/-- the sequence that starts with `lead` and goes on with `rest` -/
def sequence (lead : UInt8) (rest : Bytes) : Sequence :=
  match leadLength lead, rest with
  | 1, _ => .scalar (Char.ofNat lead.toNat) 1
  | 2, [] => .truncated
  | 2, b :: _ =>
    if isSecond lead b then .scalar (Char.ofNat (lead.toNat % 32 * 64 + payload b)) 2
    else .malformed 1
  | 3, [] => .truncated
  | 3, [b] => if isSecond lead b then .truncated else .malformed 1
  | 3, b :: c :: _ =>
    if !isSecond lead b then .malformed 1
    else if !isContinuation c then .malformed 2
    else .scalar (Char.ofNat (lead.toNat % 16 * 4096 + payload b * 64 + payload c)) 3
  | 4, [] => .truncated
  | 4, [b] => if isSecond lead b then .truncated else .malformed 1
  | 4, [b, c] =>
    if !isSecond lead b then .malformed 1 else if isContinuation c then .truncated else .malformed 2
  | 4, b :: c :: d :: _ =>
    if !isSecond lead b then .malformed 1
    else if !isContinuation c then .malformed 2
    else if !isContinuation d then .malformed 3
    else
      .scalar (Char.ofNat
        (lead.toNat % 8 * 262144 + payload b * 4096 + payload c * 64 + payload d)) 4
  | _, _ => .malformed 1

/-- the first defect of a byte string -/
structure Defect where
  /-- how many bytes in front of it are well-formed -/
  index : Nat
  /-- how many bytes it covers; `none` when the bytes end inside a sequence -/
  extent : Option Nat
deriving DecidableEq, Repr

/-- decodes after skipping `skip` bytes, which belong to the character before; `index` counts the
bytes passed -/
def decodeFrom (skip index : Nat) : Bytes → Except Defect Text
  | [] => .ok []
  | b :: bs =>
    match skip with
    | skip + 1 => decodeFrom skip (index + 1) bs
    | 0 =>
      match sequence b bs with
      | .scalar c size => (decodeFrom (size - 1) (index + 1) bs).map (c :: ·)
      | .malformed size => .error ⟨index, some size⟩
      | .truncated => .error ⟨index, none⟩

/-- the text a byte string encodes, or its first defect -/
def decode (bs : Bytes) : Except Defect Text := decodeFrom 0 0 bs

/-- the text a byte string encodes, if it is well-formed -/
def decode? (bs : Bytes) : Option Text := (decode bs).toOption

/-- decodes after skipping `skip` bytes; each defect becomes one U+FFFD -/
def decodeLossyFrom (skip : Nat) : Bytes → Text
  | [] => []
  | b :: bs =>
    match skip with
    | skip + 1 => decodeLossyFrom skip bs
    | 0 =>
      match sequence b bs with
      | .scalar c size => c :: decodeLossyFrom (size - 1) bs
      | .malformed size => '\uFFFD' :: decodeLossyFrom (size - 1) bs
      | .truncated => ['\uFFFD']

/-- the text of a byte string, each defect replaced by U+FFFD -/
def decodeLossy (bs : Bytes) : Text := decodeLossyFrom 0 bs

/-- a defect in words -/
def Defect.message (d : Defect) : String :=
  match d.extent with
  | some n => s!"invalid utf-8 sequence of {n} bytes from index {d.index}"
  | none => s!"incomplete utf-8 byte sequence from index {d.index}"

end CodeCache.Utf8
