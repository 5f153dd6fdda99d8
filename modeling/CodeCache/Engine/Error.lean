/-
What can go wrong with a script engine.
-/
import CodeCache.Cache.Error
import CodeCache.System.OsError

namespace CodeCache

/-- how a conversation with an engine host breaks -/
inductive ProtocolError where
  | closedOutput
  | oversizedPayload (size : Nat)
  | invalidStatus (tag : UInt8)
  | invalidJson
deriving DecidableEq, Repr

def ProtocolError.message : ProtocolError → String
  | .closedOutput => "engine host closed its output"
  | .oversizedPayload size => s!"payload of {size} bytes"
  | .invalidStatus tag => s!"invalid status tag {tag}"
  | .invalidJson => "invalid JSON from engine host"

inductive EngineError where
  /-- an executable, or an engine, that could not be found; `hint` says where it was looked for -/
  | missing (what : String) (hint : Text)
  /-- a program the operating system did not start -/
  | notStarted (program : Text) (cause : OsError)
  /-- the engine's own report about a script -/
  | script (report : Text)
  | protocol (cause : ProtocolError)
  | io (cause : OsError)
  | cache (cause : CacheError)
deriving DecidableEq, Repr

def EngineError.message : EngineError → String
  | .missing what hint => s!"{what} not found: {String.ofList hint}"
  | .notStarted program cause => s!"Failed to spawn {String.ofList program}: {cause.message}"
  | .script report => s!"Script error: {String.ofList report}"
  | .protocol cause => s!"Engine host protocol error: {cause.message}"
  | .io cause => s!"IO error: {cause.message}"
  | .cache cause => cause.message

end CodeCache
