/-
Preparing a source for the engine: an interpreter line goes, a module is wrapped. Line numbers stay
those of the file.
-/
import CodeCache.Engine.Script

namespace CodeCache.Source

/-- the characters that end a line of a script -/
def isLineEnd (c : Char) : Bool := c == '\n' || c == '\r' || c == '\u2028' || c == '\u2029'

/-- without the content of a leading `#!` line; its line end stays -/
def stripInterpreter (t : Text) : Text :=
  match ['#', '!'].isPrefixOf? t with
  | some rest => rest.dropWhile fun c => !isLineEnd c
  | none => t

/-- exactly what the engine compiles -/
def prepare (asModule : Bool) (t : Text) : Text :=
  if asModule then ModuleWrapper.wrap (stripInterpreter t) else stripInterpreter t

end CodeCache.Source
