/-
The header of a code cache.

bytes  0..8    owned by the engine
bytes  8..12   length of the compiled source, little-endian
bytes 12..16   build fingerprint
bytes 16..20   build fingerprint, newer engines only
-/
import CodeCache.Bytes
import CodeCache.Cache.Error

namespace CodeCache

namespace Header

/-- where the source length starts -/
def lengthOffset : Nat := 8

/-- where the fingerprint starts; a shorter buffer carries no source length -/
def fingerprintOffset : Nat := 12

/-- where the widest fingerprint ends -/
def fingerprintEnd : Nat := 20

/-- the declared length of the source -/
def declaredLength (buffer : Bytes) : Except CacheError UInt32 :=
  if fingerprintOffset ≤ buffer.length then
    .ok (UInt32.ofNat (LittleEndian.decode ((buffer.drop lengthOffset).take 4)))
  else .error (.invalidBuffer fingerprintOffset buffer.length)

/-- writes another declared length; also gives the buffer as it is afterwards -/
def setDeclaredLength (buffer : Bytes) (length : UInt32) : Except CacheError Unit × Bytes :=
  if fingerprintOffset ≤ buffer.length then
    (.ok (), buffer.take lengthOffset ++ LittleEndian.encode 4 length.toNat ++
      buffer.drop fingerprintOffset)
  else (.error (.invalidBuffer fingerprintOffset buffer.length), buffer)

end Header

/-- the header fields of a cache -/
structure Header where
  sourceLength : UInt32
  /-- bytes 12..20, fewer if the buffer ends before -/
  fingerprint : Bytes
  /-- size of the whole buffer -/
  totalLength : Nat
deriving DecidableEq, Repr

namespace Header

def parse (buffer : Bytes) : Except CacheError Header :=
  match declaredLength buffer with
  | .error e => .error e
  | .ok length =>
    .ok ⟨length, (buffer.drop fingerprintOffset).take (fingerprintEnd - fingerprintOffset),
      buffer.length⟩

/-- the bytes in words of four, only the last one possibly shorter -/
def words : Bytes → List Bytes
  | a :: b :: c :: d :: rest => [a, b, c, d] :: words rest
  | [] => []
  | short => [short]

/-- the fingerprint in hexadecimal, a blank between its words -/
def fingerprintHex (header : Header) : Text :=
  Text.join [' '] ((words header.fingerprint).map Hex.encode)

end Header

end CodeCache
