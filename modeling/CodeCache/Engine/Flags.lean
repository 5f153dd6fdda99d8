/-
Engine flags that decide whether a cache is complete.

Functions compiled lazily, or flushed because they are cold, would be missing from a cache, so both
are off by default. Flags count only before the engine parses anything: the first request fixes
them.
-/
import CodeCache.Text

namespace CodeCache

structure EngineFlags where
  /-- inner functions may be compiled later -/
  lazy : Bool
  /-- bytecode of cold functions may be dropped -/
  flushBytecode : Bool
deriving DecidableEq, Repr

namespace EngineFlags

/-- everything is compiled and kept -/
def complete : EngineFlags := ⟨false, false⟩

/-- the flags on a command line -/
def arguments (flags : EngineFlags) : List Text :=
  (if flags.lazy then [] else ["--no-lazy".toList]) ++
    (if flags.flushBytecode then [] else ["--no-flush-bytecode".toList])

/-- statements that set the flags from inside a script -/
def statements (flags : EngineFlags) : Text :=
  flags.arguments.flatMap fun flag => "v8.setFlagsFromString('".toList ++ flag ++ "');\n".toList

/-- the flags in effect after a request, given those fixed before -/
def settle (fixed : Option EngineFlags) (requested : EngineFlags) : EngineFlags :=
  fixed.getD requested

end EngineFlags

end CodeCache
