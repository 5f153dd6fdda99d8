/-
What can be wrong with a cache, its layout or the engine it is meant for.
-/
import CodeCache.Text

namespace CodeCache

inductive CacheError where
  /-- a buffer too short for the header field asked for -/
  | invalidBuffer (needed actual : Nat)
  /-- a text that is no engine version -/
  | invalidVersion (text : Text)
  /-- a byte span that is empty, inverted or touches the length field -/
  | invalidSpan (start stop : Nat)
  /-- no usable reference cache -/
  | reference (reason : String)
deriving DecidableEq, Repr

def CacheError.message : CacheError → String
  | .invalidBuffer needed actual =>
    s!"Invalid cache buffer: need at least {needed} bytes, got {actual}"
  | .invalidVersion text => s!"Invalid engine version: {String.ofList text}"
  | .invalidSpan start stop => s!"Invalid byte span {start}..{stop}"
  | .reference reason => s!"Reference compile failed: {reason}"

end CodeCache
