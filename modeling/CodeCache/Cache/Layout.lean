/-
Which header bytes carry the build fingerprint, by engine version.

A table is an ordered list of layouts; the first whose range holds the version decides. The built-in
table covers every version, and configured layouts go in front of it.
-/
import CodeCache.Cache.Version
import CodeCache.Cache.Header

namespace CodeCache

/-- header bytes `start` up to but not including `stop`; at least one byte, none of them in the
length field -/
structure ByteSpan where
  start : Nat
  stop : Nat
  nonempty : start < stop
  clear : ¬(start < Header.fingerprintOffset ∧ Header.lengthOffset < stop)
deriving DecidableEq, Repr

namespace ByteSpan

def make (start stop : Nat) : Except CacheError ByteSpan :=
  if h : start < stop ∧ ¬(start < Header.fingerprintOffset ∧ Header.lengthOffset < stop) then
    .ok ⟨start, stop, h.1, h.2⟩
  else .error (.invalidSpan start stop)

/-- how many bytes the span has -/
def length (s : ByteSpan) : Nat := s.stop - s.start

/-- the span covers position `i` -/
def covers (s : ByteSpan) (i : Nat) : Bool := s.start ≤ i && i < s.stop

end ByteSpan

/-- versions in `range` keep their fingerprint in `spans` -/
structure Layout where
  range : VersionRange
  spans : List ByteSpan
deriving DecidableEq, Repr

/-- layouts in the order in which they are tried -/
structure LayoutTable where
  entries : List Layout
deriving DecidableEq, Repr

namespace LayoutTable

/-- bytes 12..16 -/
def narrow : List ByteSpan := [⟨12, 16, by decide, by decide⟩]

/-- bytes 12..16 and 16..20 -/
def wide : List ByteSpan := [⟨12, 16, by decide, by decide⟩, ⟨16, 20, by decide, by decide⟩]

/-- versions from 12.0.0 and before 20.1.0 are narrow, all others wide -/
def builtIn : LayoutTable :=
  ⟨[⟨⟨some ⟨12, 0, 0⟩, some ⟨20, 1, 0⟩⟩, narrow⟩, ⟨VersionRange.any, wide⟩]⟩

/-- the built-in table behind layouts that take priority -/
def withOverrides (overrides : List Layout) : LayoutTable := ⟨overrides ++ builtIn.entries⟩

/-- the spans of the first layout that holds the version -/
def spansFor (table : LayoutTable) (v : EngineVersion) : List ByteSpan :=
  match table.entries.find? (·.range.contains v) with
  | some layout => layout.spans
  | none => []

end LayoutTable

end CodeCache
