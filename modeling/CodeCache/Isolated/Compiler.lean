/-
Compiling in a process of its own, for hosts whose caches no other engine can make.

The process is given the compiler script and the source; whatever it writes to its standard output
is the cache. Its exit code, its standard error and its messages do not change that: an unusable
cache shows when it is loaded.
-/
import CodeCache.Isolated.Channel
import CodeCache.Isolated.Script
import CodeCache.System.Locate

namespace CodeCache.Isolated

structure Output where
  /-- what was written to the standard output -/
  data : Bytes
  /-- what was sent over the message channel -/
  messages : List Json
deriving Repr

/-- what a program writes that is started as a compiler; a host finds no request in its arguments
and writes nothing -/
def outputOf (source : Bytes) : Behaviour → Output
  | .host _ => ⟨[], []⟩
  | .compiler run =>
    let input := if run.readsInput then source else []
    ⟨run.output.getD input, Channel.messages run.channel⟩

/-- what the program reads -/
def inputOf (source : Bytes) : Behaviour → Bytes
  | .host _ => source
  | .compiler run => if run.readsInput then source else []

/-- compiles a source with the program that `executable` starts -/
def compile (flags : EngineFlags) (executable source : Text) (m : Machine) :
    Except EngineError Output × Machine :=
  match m.program m.directory executable with
  | .error e => (.error (.notStarted executable e), m)
  | .ok program =>
    let bytes := Utf8.encode source
    (.ok (outputOf bytes program.behaviour),
      m.saw program.name
        [.compiled (IsolatedScript.text flags) "1" "3" (inputOf bytes program.behaviour)])

end CodeCache.Isolated
