/-
Versions of the engine's host: reading them (`v20.11.1`, `20.11`, `22`, `21.0.0-nightly`), writing
them, their order, and half-open ranges of them.
-/
import CodeCache.Cache.Error

namespace CodeCache

structure EngineVersion where
  major : UInt32
  minor : UInt32
  patch : UInt32
deriving DecidableEq, Repr

namespace EngineVersion

/-! ## Text -/

/-- one component: decimal digits, below 2 ^ 32 -/
def component? (t : Text) : Option UInt32 :=
  match Text.toNat? t with
  | some n => if n < UInt32.size then some (UInt32.ofNat n) else none
  | none => none

/-- the part of a version text that counts: trimmed, without one leading `v`, up to the first `-` or
`+` -/
def core (t : Text) : Text :=
  let trimmed := Text.trim t
  let bare := (['v'].isPrefixOf? trimmed).getD trimmed
  bare.takeWhile fun c => c != '-' && c != '+'

/-- the version of up to three components; missing ones are zero, further ones are ignored -/
def ofComponents? : List Text → Option EngineVersion
  | [] => none
  | [a] => do some ⟨← component? a, 0, 0⟩
  | [a, b] => do some ⟨← component? a, ← component? b, 0⟩
  | a :: b :: c :: _ => do some ⟨← component? a, ← component? b, ← component? c⟩

def parse (t : Text) : Except CacheError EngineVersion :=
  match ofComponents? (Text.splitOn '.' (core t)) with
  | some v => .ok v
  | none => .error (.invalidVersion t)

/-- the three components with points between them -/
def render (v : EngineVersion) : Text :=
  Text.ofNat v.major.toNat ++ '.' :: Text.ofNat v.minor.toNat ++ '.' :: Text.ofNat v.patch.toNat

/-! ## Order -/

/-- components are compared from the left -/
def before (a b : EngineVersion) : Bool :=
  a.major < b.major ||
    (a.major == b.major && (a.minor < b.minor || (a.minor == b.minor && a.patch < b.patch)))

end EngineVersion

/-- the versions from `min` on and before `below`, where given -/
structure VersionRange where
  min : Option EngineVersion
  below : Option EngineVersion
deriving DecidableEq, Repr

namespace VersionRange

/-- all versions -/
def any : VersionRange := ⟨none, none⟩

def contains (r : VersionRange) (v : EngineVersion) : Bool :=
  r.min.all (fun low => !v.before low) && r.below.all (fun high => v.before high)

end VersionRange

end CodeCache
