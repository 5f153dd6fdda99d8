/-
Engine hosts: processes that answer requests, one reply frame for each.

A host process is what it will still write, what it has written and nobody has read yet, and whether
it still reads. A request writes one frame and reads one; what is left in the stream answers the
next request. A read beyond what has been written finds the end of the output, and every later read
finds it again.
-/
import CodeCache.Host.Frame
import CodeCache.Host.Request
import CodeCache.Json.Raw
import CodeCache.System.Locate
import CodeCache.Engine.Flags
import CodeCache.Host.Script

namespace CodeCache

/-! ## The process -/

structure HostProcess where
  /-- replies still to come, one for each request -/
  replies : List Reply
  /-- bytes written and not yet read -/
  output : Bytes
  /-- it still reads requests -/
  reads : Bool
  /-- the end of its output has been found -/
  ended : Bool
deriving DecidableEq, Repr

namespace HostProcess

def start (replies : List Reply) : HostProcess := ⟨replies, [], true, false⟩

/-- the process after it read one request; a process without replies left closes, and behind the end
of the output there is nothing more to come -/
def answer (p : HostProcess) : HostProcess :=
  match p.replies with
  | [] => { p with reads := false }
  | reply :: replies =>
    { p with
      replies := replies
      output := if p.ended then p.output else p.output ++ reply.bytes
      reads := !reply.closes }

end HostProcess

/-! ## The engine -/

/-- an engine in a host process -/
structure HostEngine where
  process : HostProcess
  /-- the name of the program it runs -/
  program : Text
  executable : Text
  version : EngineVersion
  /-- the version of the script engine proper, as the host reports it -/
  engineVersion : Text
  /-- what the process saw -/
  seen : List Sighting
deriving DecidableEq, Repr

namespace HostEngine

/-- sends a payload and takes the body of the reply; also what the process saw -/
def request (op : Operation) (payload : Bytes) (p : HostProcess) :
    Except EngineError Bytes × HostProcess × List Sighting :=
  match Frame.encode ⟨op.tag, payload⟩ with
  | .error e => (.error e, p, [])
  | .ok _ =>
    if !p.reads then (.error (.io .brokenPipe), p, [])
    else
      let p := p.answer
      let seen := [Sighting.request op.tag payload]
      match Frame.read p.output with
      | .error e => (.error e, { p with output := [], ended := true }, seen)
      | .ok (reply, rest) =>
        let p := { p with output := rest }
        match Status.ofTag reply.tag with
        | .error e => (.error e, p, seen)
        | .ok .ok => (.ok reply.payload, p, seen)
        | .ok .error => (.error (.script (Utf8.decodeLossy reply.payload)), p, seen)

/-- a request to the engine's process -/
def ask (op : Operation) (payload : Bytes) (h : HostEngine) :
    Except EngineError Bytes × HostEngine :=
  let (result, process, seen) := request op payload h.process
  (result, { h with process := process, seen := h.seen ++ seen })

/-! ## Replies in JSON -/

/-- the JSON document of a reply, its strings in letters; what nobody asks for need not be UTF-8 -/
def document (body : Bytes) : Except EngineError Json.Document :=
  match Json.Document.ofBytes? body with
  | some d => .ok d
  | none => .error (.protocol .invalidJson)

/-- the documents at two keys: an object that has each exactly once, whatever else it has, or a list
of the two -/
def twoFields? (a b : Text) : Json.Document → Option (Json.Document × Json.Document)
  | .array [x, y] => some (x, y)
  | .object members => do
    let members ← members.mapM fun (key, value) => do some (← Json.lettersText? key, value)
    match members.filter (·.1 == a), members.filter (·.1 == b) with
    | [(_, x)], [(_, y)] => some (x, y)
    | _, _ => none
  | _ => none

def textOf? : Json.Document → Option Text
  | .string pieces => Json.lettersText? pieces
  | _ => none

def boolOf? : Json.Document → Option Bool
  | .bool b => some b
  | _ => none

/-- the versions a host reports: its own, and that of its script engine -/
def versions? (d : Json.Document) : Option (Text × Text) := do
  let (node, v8) ← twoFields? "node" "v8" d
  some (← textOf? node, ← textOf? v8)

/-- the outcome a host reports; the value counts only if the cache was not rejected, but must be
there -/
def outcome? (d : Json.Document) : Option RunOutcome := do
  let (rejected, value) ← twoFields? "rejected" "value" d
  let rejected ← boolOf? rejected
  let value ← (← value.decoded?).value? (Json.deepest - 1)
  some (if rejected then .rejected else .completed value)

/-! ## Operations -/

/-- the outcome a reply to a run request gives -/
def readOutcome (body : Bytes) : Except EngineError RunOutcome :=
  match document body with
  | .error e => .error e
  | .ok d =>
    match outcome? d with
    | some outcome => .ok outcome
    | none => .error (.protocol .invalidJson)

def compile (source : Text) (h : HostEngine) : Except EngineError Bytes × HostEngine :=
  h.ask .compile (Utf8.encode source)

def run (script : CachedScript) (h : HostEngine) : Except EngineError RunOutcome × HostEngine :=
  let (result, h) := h.ask .run (RunRequest.encode script)
  (result.bind readOutcome, h)

/-- a host engine as a script engine -/
def engine : ScriptEngine HostEngine := ⟨version, compile, run⟩

/-- the versions in the reply to the first request -/
def handshake (body : Bytes) : Except EngineError (EngineVersion × Text) :=
  match document body with
  | .error e => .error e
  | .ok d =>
    match versions? d with
    | none => .error (.protocol .invalidJson)
    | some (node, v8) =>
      match EngineVersion.parse node with
      | .ok version => .ok (version, v8)
      | .error e => .error (.cache e)

/-- nothing has shown yet that the process ended -/
def isRunning (h : HostEngine) : Bool := !h.process.ended

/-! ## Launching -/

/-- the command line behind the program's name -/
def arguments (flags : EngineFlags) : List Text := flags.arguments ++ ["-e".toList, HostScript.text]

/-- the replies of a program started as a host; a compiler writes its output once and ends -/
def repliesOf : Behaviour → List Reply
  | .host replies => replies
  | .compiler run => [⟨run.output.getD [], true⟩]

/-- the directory a process is started in -/
def startDirectory (m : Machine) : Option Text → Except OsError Route
  | none => .ok m.directory
  | some p =>
    match m.files.find m.directory p with
    | .error e => .error e
    | .ok (route, .directory) => .ok route
    | .ok _ => .error .notADirectory

/-- starts a host, from an explicit executable or the one found, and asks it for its versions -/
def launch (flags : EngineFlags) (m : Machine) (explicit directory : Option Text) :
    Except EngineError HostEngine × Machine :=
  match m.locateNode explicit with
  | .error e => (.error e, m)
  | .ok executable =>
    match startDirectory m directory with
    | .error e => (.error (.notStarted executable e), m)
    | .ok here =>
      match m.program here executable with
      | .error e => (.error (.notStarted executable e), m)
      | .ok program =>
        let (reply, process, seen) := request .version [] (.start (repliesOf program.behaviour))
        let m := m.saw program.name (.started (arguments flags) here.text :: seen)
        match reply.bind handshake with
        | .error e => (.error e, m)
        | .ok (version, engineVersion) =>
          (.ok ⟨process, program.name, executable, version, engineVersion, []⟩, m)

/-- moves what the process saw into the machine's record -/
def report (h : HostEngine) (m : Machine) : HostEngine × Machine :=
  ({ h with seen := [] }, m.saw h.program h.seen)

end HostEngine

end CodeCache
