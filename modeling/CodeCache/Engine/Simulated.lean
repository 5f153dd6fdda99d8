/-
A deterministic engine in memory.

Its caches are `magic (8) ++ source length (4) ++ fingerprint (8) ++ source`, so they go through the
same header handling as real ones. It refuses a cache whose magic or fingerprint is not its own, or
whose declared length is not that of the placeholder. Running understands just enough to give the
value of a script that is JSON, and of modules made of `module.exports = <json>;` and
`exports.<name> = <json>;`.
-/
import CodeCache.Engine.Script
import CodeCache.Cache.Header
import CodeCache.Json.Document
import CodeCache.Text.Utf8

namespace CodeCache

structure SimulatedEngine where
  version : EngineVersion
  build : UInt64
  /-- the sources given to it for compiling, in order -/
  compiled : List Text
  /-- how often it was asked to run a cache -/
  runs : Nat
deriving DecidableEq, Repr

namespace SimulatedEngine

/-- an engine that has not been used yet -/
def new (version : EngineVersion) (build : UInt64) : SimulatedEngine := ⟨version, build, [], 0⟩

def standard : SimulatedEngine := new ⟨22, 12, 0⟩ 0x5eed

def magic : Bytes := Utf8.encode "KILNFAKE"

/-- the bytes of the build number -/
def fingerprint (e : SimulatedEngine) : Bytes := LittleEndian.encode 8 e.build.toNat

/-! ## Compiling -/

def isOpening (c : Char) : Bool := c == '(' || c == '\x7b' || c == '['

def isClosing (c : Char) : Bool := c == ')' || c == '\x7d' || c == ']'

/-- `depth` brackets are open, and the text closes them all without ever closing one too many; the
kinds of brackets are not told apart -/
def balanced (depth : Nat) : Text → Bool
  | [] => depth == 0
  | c :: cs =>
    if isOpening c then balanced (depth + 1) cs
    else if isClosing c then
      match depth with
      | 0 => false
      | depth + 1 => balanced depth cs
    else balanced depth cs

/-- the cache the engine makes of a source -/
def cacheOf (e : SimulatedEngine) (source : Text) : Bytes :=
  magic ++ LittleEndian.encode 4 (Text.units source) ++ e.fingerprint ++ Utf8.encode source

/-- a source is remembered whether or not it compiles -/
def compile (source : Text) (e : SimulatedEngine) : Except EngineError Bytes × SimulatedEngine :=
  (if balanced 0 source then .ok (e.cacheOf source)
    else .error (.script "SyntaxError: Unexpected end of input"),
    { e with compiled := e.compiled ++ [source] })

/-! ## Running -/

/-- the value of a script: the JSON it writes, semicolons at its end aside; anything else is null -/
def scriptValue (source : Text) : Json :=
  (Json.parse? (Text.trimEnd (· == ';') (Text.trim source))).getD .null

/-- the exports after one statement of a module -/
def execute (exports : Json) (statement : Text) : Json :=
  match "module.exports =".toList.isPrefixOf? statement with
  | some value => (Json.parse? (Text.trim value)).getD exports
  | none =>
    match ("exports.".toList.isPrefixOf? statement).bind (Text.splitFirst? '=') with
    | some (name, value) =>
      match Json.parse? (Text.trim value), exports with
      | some value, .obj members => .obj (Json.insertMember (Text.trim name) value members)
      | _, _ => exports
    | none => exports

/-- the exports of a module body: its statements, which semicolons and line feeds separate, from
left to right -/
def moduleValue (body : Text) : Json :=
  ((Text.splitWhere (fun c => c == ';' || c == '\n') body).map Text.trim).foldl execute (.obj [])

/-- the engine takes the cache for its own -/
def accepts (e : SimulatedEngine) (data : Bytes) (placeholder : Text) : Bool :=
  Header.fingerprintEnd ≤ data.length && data.take Header.lengthOffset == magic &&
    (data.drop Header.fingerprintOffset).take 8 == e.fingerprint &&
    LittleEndian.decode ((data.drop Header.lengthOffset).take 4) == Text.units placeholder

/-- the value of the source a cache carries -/
def evaluate (data : Bytes) (invocation : Invocation) : Except EngineError Json :=
  match Utf8.decode (data.drop Header.fingerprintEnd) with
  | .error defect => .error (.script s!"corrupt cache payload: {defect.message}".toList)
  | .ok source =>
    match invocation with
    | .script => .ok (scriptValue source)
    | .module =>
      match ModuleWrapper.unwrap? source with
      | some body => .ok (moduleValue body)
      | none => .error (.script "TypeError: compiledWrapper.apply is not a function")

def run (script : CachedScript) (e : SimulatedEngine) :
    Except EngineError RunOutcome × SimulatedEngine :=
  (if e.accepts script.data script.placeholder then
      (evaluate script.data script.invocation).map .completed
    else .ok .rejected,
    { e with runs := e.runs + 1 })

/-- the simulated engine as a script engine -/
def engine : ScriptEngine SimulatedEngine := ⟨version, compile, run⟩

end SimulatedEngine

end CodeCache
