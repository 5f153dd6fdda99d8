/-
The payload of a run request: the length of a JSON header in four bytes, the header, the cache.
-/
import CodeCache.Engine.Script
import CodeCache.Json.Printer
import CodeCache.Text.Utf8

namespace CodeCache.RunRequest

def invocationName : Invocation → Text
  | .script => "script"
  | .module => "module"

/-- the header's text: file name, placeholder and invocation, in this order -/
def headerText (script : CachedScript) : Text :=
  "\x7b\"filename\":".toList ++ Json.renderString script.filename ++ ",\"placeholder\":".toList ++
    Json.renderString script.placeholder ++ ",\"invocation\":".toList ++
    Json.renderString (invocationName script.invocation) ++ ['\x7d']

/-- the payload; of a header's length only the low four bytes are kept -/
def encode (script : CachedScript) : Bytes :=
  let header := Utf8.encode (headerText script)
  LittleEndian.encode 4 header.length ++ header ++ script.data

/-- the header's bytes and the cache of a payload -/
def split (payload : Bytes) : Bytes × Bytes :=
  let size := LittleEndian.decode (payload.take 4)
  ((payload.drop 4).take size, (payload.drop 4).drop size)

end CodeCache.RunRequest
