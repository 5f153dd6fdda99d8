/-
The engines of a session: simulated ones and hosts, by the number under which they were started.

An engine that could not be started keeps its number, and every request to it fails.
-/
import CodeCache.Engine.Simulated
import CodeCache.Host.Engine

namespace CodeCache

inductive RunningEngine where
  | simulated (e : SimulatedEngine)
  | host (h : HostEngine)
deriving DecidableEq, Repr

namespace RunningEngine

def version : RunningEngine → EngineVersion
  | .simulated e => e.version
  | .host h => h.version

def compile (source : Text) : RunningEngine → Except EngineError Bytes × RunningEngine
  | .simulated e => (e.compile source).map id .simulated
  | .host h => (h.compile source).map id .host

def run (script : CachedScript) : RunningEngine → Except EngineError RunOutcome × RunningEngine
  | .simulated e => (e.run script).map id .simulated
  | .host h => (h.run script).map id .host

/-- moves what a host saw into the machine's record -/
def report (m : Machine) : RunningEngine → RunningEngine × Machine
  | .simulated e => (.simulated e, m)
  | .host h => (h.report m).map .host id

end RunningEngine

/-- engines by number; `none` for one that could not be started -/
abbrev Engines := List (Option RunningEngine)

namespace Engines

def engine? (es : Engines) (i : Nat) : Option RunningEngine := es[i]?.join

/-- one operation of the engine at a number -/
def act {α : Type} (i : Nat)
    (operation : RunningEngine → Except EngineError α × RunningEngine) (es : Engines) :
    Except EngineError α × Engines :=
  match es.engine? i with
  | some e =>
    let (result, e) := operation e
    (result, List.set es i (some e))
  | none => (.error (.missing "script engine" ("no engine ".toList ++ Text.ofNat i)), es)

/-- the engine at a number as a script engine on all of them -/
def slot (i : Nat) : ScriptEngine Engines where
  version := fun es => ((es.engine? i).map RunningEngine.version).getD ⟨0, 0, 0⟩
  compile := fun source => act i (RunningEngine.compile source)
  run := fun script => act i (RunningEngine.run script)

/-- moves what the hosts saw into the machine's record, one engine after another -/
def report (m : Machine) : Engines → Engines × Machine
  | [] => ([], m)
  | none :: es => (report m es).map (none :: ·) id
  | some e :: es =>
    let (e, m) := e.report m
    (report m es).map (some e :: ·) id

end Engines

end CodeCache
