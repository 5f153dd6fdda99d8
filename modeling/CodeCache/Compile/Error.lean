/-
What can go wrong when a file is compiled, or a cache is loaded.
-/
import CodeCache.Engine.Error
import CodeCache.Text.Quoted

namespace CodeCache

/-- why options cannot be resolved -/
inductive OptionsError where
  /-- a source path that ends in no file name -/
  | unnamedFile (path : Text)
  /-- an extension that is empty or would lead into another directory -/
  | invalidExtension (text : Text)
  /-- a name for the loader that is empty or would lead into another directory -/
  | unusableLoaderName (name : Text)
deriving DecidableEq, Repr

def OptionsError.message : OptionsError → String
  | .unnamedFile path => s!"filename must name a file, got {String.ofList path.quoted}"
  | .invalidExtension text => s!"invalid extname {String.ofList text.quoted}"
  | .unusableLoaderName name =>
    s!"loader filename must be a plain file name, got {String.ofList name.quoted}"

/-- what was being done to a file -/
inductive FileTask where
  | read
  | createDirectory
  | writeCache
  | writeLoader
  | resolve
deriving DecidableEq, Repr

def FileTask.name : FileTask → String
  | .read => "read"
  | .createDirectory => "create directory"
  | .writeCache => "write cache"
  | .writeLoader => "write loader"
  | .resolve => "resolve"

inductive CompileError where
  /-- a source that is not text from byte `index` on, and the file it came from, if any -/
  | notText (index : Nat) (path : Option Text)
  /-- the engine refused a cache, and there is no source to fall back to -/
  | cacheRejected (path : Text)
  | file (task : FileTask) (path : Text) (cause : OsError)
  | options (cause : OptionsError)
  /-- no handler for files of that extension -/
  | unhandledExtension (extension : Text)
  | engine (cause : EngineError)
  | cache (cause : CacheError)
deriving DecidableEq, Repr

def CompileError.message : CompileError → String
  | .notText index path =>
    s!"Type mismatch: expected UTF-8 script source, got invalid UTF-8 at byte {index}" ++
      match path with
      | some p => s!" of {String.ofList p}"
      | none => ""
  | .cacheRejected path =>
    s!"Invalid or incompatible cached data (cachedDataRejected): {String.ofList path}"
  | .file task path cause => s!"Failed to {task.name} {String.ofList path}: {cause.message}"
  | .options cause => s!"Invalid options: {cause.message}"
  | .unhandledExtension extension =>
    s!"No handler registered for extension {String.ofList extension.quoted}"
  | .engine cause => cause.message
  | .cache cause => cause.message

end CodeCache
