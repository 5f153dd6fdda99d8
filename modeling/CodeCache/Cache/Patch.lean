/-
Patching: the fingerprint bytes of a cache are replaced by those of a reference cache, one made by
the engine that is going to load it. Either every span is copied or, on an error, nothing is.
-/
import CodeCache.Cache.Layout

namespace CodeCache

/-- the source a reference cache is compiled from; any valid script that is not empty would do -/
def referenceSource : Text := "\"ಠ_ಠ\""

namespace Patch

/-- how many bytes the spans reach over -/
def needed (spans : List ByteSpan) : Nat := spans.foldl (fun n s => max n s.stop) 0

/-- the target with the bytes of one span taken from the reference -/
def copySpan (reference target : Bytes) (s : ByteSpan) : Bytes :=
  target.take s.start ++ (reference.drop s.start).take s.length ++ target.drop s.stop

/-- the target with the bytes of all spans taken from the reference -/
def copySpans (reference target : Bytes) (spans : List ByteSpan) : Bytes :=
  spans.foldl (copySpan reference) target

/-- patches a target for an engine of version `v` whose reference cache is `reference`, or could not
be made; also gives the target as it is afterwards -/
def patch (table : LayoutTable) (v : EngineVersion) (reference : Except CacheError Bytes)
    (target : Bytes) : Except CacheError Unit × Bytes :=
  let spans := table.spansFor v
  match reference with
  | .error e => (.error e, target)
  | .ok bytes =>
    if bytes.length < needed spans then
      (.error (.reference (s!"reference cache is {bytes.length} bytes, " ++
        s!"layout for v{String.ofList v.render} needs {needed spans}")), target)
    else if target.length < needed spans then
      (.error (.invalidBuffer (needed spans) target.length), target)
    else (.ok (), copySpans bytes target spans)

end Patch

end CodeCache
