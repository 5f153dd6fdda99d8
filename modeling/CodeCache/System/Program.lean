/-
Programs a machine can start, given by what they do with their inputs and outputs, and what they
saw.
-/
import CodeCache.Bytes

namespace CodeCache

/-- what an engine host writes for one request -/
structure Reply where
  bytes : Bytes
  /-- it stops reading requests before it writes, and ends after -/
  closes : Bool
deriving DecidableEq, Repr

/-- what a compiler process did until it ended: the bytes are those it did write, so a process that was
ended in the middle of something has written less -/
structure CompilerRun where
  /-- what it wrote to its standard output; `none` for what it read -/
  output : Option Bytes
  errors : Bytes
  /-- what it wrote to its message channel -/
  channel : Bytes
  exitCode : Int
  /-- it read its standard input to the end -/
  readsInput : Bool
deriving DecidableEq, Repr

inductive Behaviour where
  /-- answers request frames, one reply each -/
  | host (replies : List Reply)
  /-- reads a source, writes a cache -/
  | compiler (run : CompilerRun)
deriving DecidableEq, Repr

structure Program where
  /-- the name under which it records what it saw -/
  name : Text
  behaviour : Behaviour
deriving DecidableEq, Repr

/-- one thing a running program saw -/
inductive Sighting where
  /-- a host was started -/
  | started (arguments : List Text) (directory : Text)
  /-- a host read a request -/
  | request (op : UInt8) (payload : Bytes)
  /-- a compiler process ran -/
  | compiled (script : Text) (runAsNode channelDescriptor : Text) (input : Bytes)
deriving DecidableEq, Repr

end CodeCache
