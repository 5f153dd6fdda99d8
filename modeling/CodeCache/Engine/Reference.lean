/-
The reference cache of an engine: compiled when it is first needed, and kept from the first success
on.
-/
import CodeCache.Engine.Script
import CodeCache.Cache.Patch

namespace CodeCache

variable {σ : Type}

/-- the reference cache, the kept cache afterwards, and the engine's state afterwards -/
def ScriptEngine.reference (E : ScriptEngine σ) (kept : Option Bytes) (s : σ) :
    Except CacheError Bytes × Option Bytes × σ :=
  match kept with
  | some bytes => (.ok bytes, kept, s)
  | none =>
    match E.compile referenceSource s with
    | (.ok bytes, s) => (.ok bytes, some bytes, s)
    | (.error e, s) => (.error (.reference e.message), none, s)

end CodeCache
