/-
Sessions: one machine, the engines started on it, and a module table whose handlers load through
them.

Every operation gives its result and the session afterwards; one that fails changes nothing but what
it had already done.
-/
import CodeCache.Compile.Pipeline
import CodeCache.Loading.CacheHandler
import CodeCache.Loading.ModuleTable
import CodeCache.Session.Engines

namespace CodeCache

/-- what is registered for an extension -/
inductive SessionHandler where
  /-- loads caches on the engine of a number -/
  | caches (engine : Nat) (handler : CacheHandler)
  /-- fails for its first `failures` loads and then gives the path and how often it was asked -/
  | reluctant (failures loads : Nat)
deriving DecidableEq, Repr

namespace SessionHandler

/-- the extension a reluctant handler blames -/
def blamed : Text := ".flaky"

/-- the answer of a reluctant handler to its `loads`-th load -/
def answer (failures loads : Nat) (path : Text) : Except CompileError Json :=
  if loads ≤ failures then .error (.unhandledExtension blamed)
  else .ok (.record [("path", .str path), ("loads", .nat loads)])

def load (path : Text) (m : Machine) (es : Engines) :
    SessionHandler → Except CompileError Json × SessionHandler × Engines
  | .caches engine handler =>
    let (result, handler, es) := handler.load (Engines.slot engine) m path es
    (result, .caches engine handler, es)
  | .reluctant failures loads =>
    (answer failures (loads + 1) path, .reluctant failures (loads + 1), es)

end SessionHandler

structure Session where
  machine : Machine
  engines : Engines
  table : ModuleTable SessionHandler

namespace Session

/-- a session on a machine, without engines -/
def start (m : Machine) : Session := ⟨m, [], .empty⟩

/-- moves what the hosts saw into the machine's record -/
def settle (s : Session) : Session :=
  let (engines, machine) := s.engines.report s.machine
  { s with engines := engines, machine := machine }

/-! ## Engines -/

/-- adds an engine under the next number, or keeps the number for one that could not be started -/
def addEngine (s : Session) (e : Option RunningEngine) : Session :=
  { s with engines := s.engines ++ [e] }

/-- starts a host under the next number -/
def launch (s : Session) (explicit directory : Option Text) :
    Except EngineError HostEngine × Session :=
  match HostEngine.launch .complete s.machine explicit directory with
  | (.ok h, m) => (.ok h, { s with machine := m }.addEngine (some (.host h)))
  | (.error e, m) => (.error e, { s with machine := m }.addEngine none)

def compile (s : Session) (engine : Nat) (source : Text) : Except EngineError Bytes × Session :=
  let (result, engines) := (Engines.slot engine).compile source s.engines
  (result, { s with engines := engines }.settle)

def run (s : Session) (engine : Nat) (script : CachedScript) :
    Except EngineError RunOutcome × Session :=
  let (result, engines) := (Engines.slot engine).run script s.engines
  (result, { s with engines := engines }.settle)

/-! ## Files -/

/-- the toolchain with the engine of a number, or without an engine if there is none under it -/
def toolchain (s : Session) (engine : Option Nat) (table : LayoutTable) : Toolchain Engines :=
  ⟨(engine.filter fun i => (s.engines.engine? i).isSome).map Engines.slot, table, .complete⟩

def compileFile (s : Session) (engine : Option Nat) (table : LayoutTable) (o : Options) :
    Except CompileError Report × Session :=
  let (result, machine, engines) := (s.toolchain engine table).compileFile o s.machine s.engines
  (result, { s with machine := machine, engines := engines }.settle)

def compileFiles (s : Session) (engine : Option Nat) (table : LayoutTable)
    (options : List Options) : Except CompileError (List Report) × Session :=
  let (result, machine, engines) :=
    (s.toolchain engine table).compileFiles s.machine s.engines options
  (result, { s with machine := machine, engines := engines }.settle)

/-! ## Modules -/

/-- how the handlers of a session load -/
def loading : ModuleLoading SessionHandler (Machine × Engines) where
  canonical := fun (m, _) path => m.canonical path
  load := fun handler path (m, es) =>
    let (result, handler, es) := handler.load path m es
    (result, handler, m, es)

def register (s : Session) (extension : Text) (handler : SessionHandler) :
    Except OptionsError Session :=
  (s.table.register extension handler).map fun table => { s with table := table }

def require (s : Session) (path : Text) : Except CompileError Json × Session :=
  let (result, table, machine, engines) := s.table.require loading path (s.machine, s.engines)
  (result, { machine := machine, engines := engines, table := table : Session }.settle)

def isLoaded (s : Session) (path : Text) : Bool :=
  s.table.isLoaded loading path (s.machine, s.engines)

end Session

end CodeCache
