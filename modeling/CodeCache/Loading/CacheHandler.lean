/-
Loading caches: the header is patched for the engine that is to run them, the declared length gives
the placeholder, and a refusal is an error, since there is no source to fall back to.

The reference cache the header is patched from is compiled when it is first needed, and kept.
-/
import CodeCache.Cache.Placeholder
import CodeCache.Compile.Error
import CodeCache.Engine.Reference
import CodeCache.Loading.ModuleTable
import CodeCache.System.Machine

namespace CodeCache

variable {σ : Type}

structure CacheHandler where
  table : LayoutTable
  invocation : Invocation
  /-- the reference cache, once it has been compiled -/
  kept : Option Bytes
deriving DecidableEq, Repr

namespace CacheHandler

/-- a handler that has not loaded anything yet -/
def new (table : LayoutTable) (invocation : Invocation) : CacheHandler := ⟨table, invocation, none⟩

/-- patches a buffer for the engine; also gives the buffer as it is afterwards -/
def patch (E : ScriptEngine σ) (h : CacheHandler) (data : Bytes) (s : σ) :
    Except CacheError Unit × Bytes × CacheHandler × σ :=
  let version := E.version s
  let (reference, kept, s) := E.reference h.kept s
  let (result, data) := Patch.patch h.table version reference data
  (result, data, { h with kept := kept }, s)

/-- what a load gives for what became of the run -/
def answer (filename : Text) : Except EngineError RunOutcome → Except CompileError Json
  | .error e => .error (.engine e)
  | .ok .rejected => .error (.cacheRejected filename)
  | .ok (.completed value) => .ok value

/-- runs a patched buffer -/
def run (E : ScriptEngine σ) (h : CacheHandler) (filename : Text) (data : Bytes) (s : σ) :
    Except CompileError Json × σ :=
  match Header.declaredLength data with
  | .error e => (.error (.cache e), s)
  | .ok length =>
    let (outcome, s) := E.run ⟨filename, Placeholder.source length, data, h.invocation⟩ s
    (answer filename outcome, s)

/-- patches and runs a cache that came from `filename`; also gives the buffer as it is afterwards -/
def loadBytes (E : ScriptEngine σ) (h : CacheHandler) (filename : Text) (data : Bytes) (s : σ) :
    Except CompileError Json × Bytes × CacheHandler × σ :=
  match h.patch E data s with
  | (.error e, data, h, s) => (.error (.cache e), data, h, s)
  | (.ok (), data, h, s) =>
    let (result, s) := h.run E filename data s
    (result, data, h, s)

/-- loads the cache in a file -/
def load (E : ScriptEngine σ) (h : CacheHandler) (m : Machine) (path : Text) (s : σ) :
    Except CompileError Json × CacheHandler × σ :=
  match m.read path with
  | .error e => (.error (.file .read path e), h, s)
  | .ok data =>
    let (result, _, h, s) := h.loadBytes E path data s
    (result, h, s)

/-- how cache handlers load the files of a machine on an engine -/
def loading (E : ScriptEngine σ) : ModuleLoading CacheHandler (Machine × σ) where
  canonical := fun (m, _) path => m.canonical path
  load := fun h path (m, s) =>
    let (result, h, s) := h.load E m path s
    (result, h, m, s)

end CacheHandler

end CodeCache
