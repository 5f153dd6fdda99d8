/-
Script engines: what any of them offers, and the module wrapper.

An engine is given by its operations on a state `σ`, so it may count, remember, fail, or answer
differently each time.
-/
import CodeCache.Cache.Version
import CodeCache.Engine.Error
import CodeCache.Json

namespace CodeCache

/-! ## The module wrapper -/

namespace ModuleWrapper

def head : Text := "(function (exports, require, module, __filename, __dirname) \x7b "

def tail : Text := "\n\x7d);"

/-- the body as a function of the module's variables -/
def wrap (body : Text) : Text := head ++ body ++ tail

/-- the body of a wrapped text -/
def unwrap? (t : Text) : Option Text := (head.isPrefixOf? t).bind fun rest => tail.isSuffixOf? rest

end ModuleWrapper

/-! ## Engines -/

/-- what becomes of the value a script evaluates to -/
inductive Invocation where
  /-- it is the result -/
  | script
  /-- it is a module wrapper, which is called; the module's exports are the result -/
  | module
deriving DecidableEq, Repr

/-- a cache to be checked against a placeholder and run -/
structure CachedScript where
  /-- the file name stack traces show -/
  filename : Text
  placeholder : Text
  data : Bytes
  invocation : Invocation
deriving DecidableEq, Repr

inductive RunOutcome where
  /-- the engine refused the cache -/
  | rejected
  | completed (value : Json)
deriving Repr

structure ScriptEngine (σ : Type) where
  version : σ → EngineVersion
  /-- compiles a source and serialises its cache -/
  compile : Text → σ → Except EngineError Bytes × σ
  /-- checks a cache against its placeholder and, if it is accepted, runs it -/
  run : CachedScript → σ → Except EngineError RunOutcome × σ

end CodeCache
