/-
Compiling a file: its source is read, prepared and compiled, and the cache is written, with a loader
next to it if one is asked for. Nothing is written before the compiler has succeeded.
-/
import CodeCache.Compile.Options
import CodeCache.Engine.Script
import CodeCache.Isolated.Compiler
import CodeCache.Loader.Script
import CodeCache.Source

namespace CodeCache

variable {σ : Type}

/-! ## Sources -/

/-- the cache the engine makes of a source -/
def ScriptEngine.compileText (E : ScriptEngine σ) (source : Text) (s : σ) :
    Except CompileError Bytes × σ :=
  let (result, s) := E.compile source s
  (result.mapError .engine, s)

/-- the cache the engine makes of a source given as bytes; bytes that are not text never reach the
engine -/
def ScriptEngine.compileBytes (E : ScriptEngine σ) (source : Bytes) (s : σ) :
    Except CompileError Bytes × σ :=
  match Utf8.decode source with
  | .error defect => (.error (.notText defect.index none), s)
  | .ok t => E.compileText t s

/-! ## Files -/

/-- what a compile needs besides its options -/
structure Toolchain (σ : Type) where
  /-- compiles everything that is not compiled in an isolated process -/
  engine : Option (ScriptEngine σ)
  /-- the layouts loaders patch by -/
  layouts : LayoutTable
  /-- the flags isolated processes run under -/
  flags : EngineFlags

/-- what became of one file -/
structure Report where
  source : Text
  cachePath : Text
  /-- the loader, if one was written -/
  loaderPath : Option Text
  /-- the length of what was compiled, in code units -/
  sourceLength : Nat
  /-- the size of the cache in bytes -/
  cacheLength : Nat
deriving DecidableEq, Repr

/-- the text of a source file -/
def Machine.readSource (m : Machine) (path : Text) : Except CompileError Text :=
  match m.read path with
  | .error e => .error (.file .read path e)
  | .ok bytes =>
    match Utf8.decode bytes with
    | .error defect => .error (.notText defect.index (some path))
    | .ok t => .ok t

namespace Toolchain

/-- compiles in a process of its own, with the Electron the source's directory sees -/
def compileIsolated (T : Toolchain σ) (o : Options) (source : Text) (m : Machine) :
    Except CompileError Bytes × Machine :=
  match m.locateElectron o.electronPath (Path.directory o.filename) with
  | .error e => (.error (.engine e), m)
  | .ok executable =>
    match Isolated.compile T.flags executable source m with
    | (.ok output, m) => (.ok output.data, m)
    | (.error e, m) => (.error (.engine e), m)

/-- there is no engine for what is not compiled in an isolated process -/
def noEngine : EngineError :=
  .missing "script engine" "start a Node host or enable the isolated compiler"

/-- compiles a prepared source as the options ask -/
def compileSource (T : Toolchain σ) (o : Options) (source : Text) (m : Machine) (s : σ) :
    Except CompileError Bytes × Machine × σ :=
  if o.electron then
    let (result, m) := T.compileIsolated o source m
    (result, m, s)
  else
    match T.engine with
    | none => (.error (.engine noEngine), m, s)
    | some E =>
      let (result, s) := E.compileText source s
      (result, m, s)

/-- writes the loader, if one is asked for -/
def writeLoaderOn (disk : Disk) (T : Toolchain σ) (o : Options) (m : Machine) :
    Except CompileError (Option Text) × Machine :=
  if o.createLoader then
    match Loader.writeOn disk o.output o.loaderName o.extension T.layouts m with
    | (.ok path, m) => (.ok (some path), m)
    | (.error e, m) => (.error e, m)
  else (.ok none, m)

/-- writes the cache, creating its directory, and then the loader; gives the loader's path -/
def writeOutputsOn (disk : Disk) (T : Toolchain σ) (o : Options) (cache : Bytes) (m : Machine) :
    Except CompileError (Option Text) × Machine :=
  match disk.makeDirectories m o.output with
  | (.error e, m) => (.error (.file .createDirectory o.output e), m)
  | (.ok (), m) =>
    match disk.write m o.cachePath cache with
    | (.error e, m) => (.error (.file .writeCache o.cachePath e), m)
    | (.ok (), m) => T.writeLoaderOn disk o m

/-- compiles one file; what is written goes to this disk -/
def compileFileOn (disk : Disk) (T : Toolchain σ) (o : Options) (m : Machine) (s : σ) :
    Except CompileError Report × Machine × σ :=
  match m.readSource o.filename with
  | .error e => (.error e, m, s)
  | .ok text =>
    let source := Source.prepare o.asModule text
    match T.compileSource o source m s with
    | (.error e, m, s) => (.error e, m, s)
    | (.ok cache, m, s) =>
      match T.writeOutputsOn disk o cache m with
      | (.error e, m) => (.error e, m, s)
      | (.ok loaderPath, m) =>
        (.ok ⟨o.filename, o.cachePath, loaderPath, Text.units source, cache.length⟩, m, s)

/-! ## On a sound disk -/

def writeLoader (T : Toolchain σ) (o : Options) (m : Machine) :
    Except CompileError (Option Text) × Machine :=
  T.writeLoaderOn .sound o m

def writeOutputs (T : Toolchain σ) (o : Options) (cache : Bytes) (m : Machine) :
    Except CompileError (Option Text) × Machine :=
  T.writeOutputsOn .sound o cache m

/-- compiles one file -/
def compileFile (T : Toolchain σ) (o : Options) (m : Machine) (s : σ) :
    Except CompileError Report × Machine × σ :=
  T.compileFileOn .sound o m s

theorem writeLoader_eq (T : Toolchain σ) (o : Options) (m : Machine) :
    T.writeLoader o m =
      if o.createLoader then
        match Loader.write o.output o.loaderName o.extension T.layouts m with
        | (.ok path, m) => (.ok (some path), m)
        | (.error e, m) => (.error e, m)
      else (.ok none, m) := rfl

theorem writeOutputs_eq (T : Toolchain σ) (o : Options) (cache : Bytes) (m : Machine) :
    T.writeOutputs o cache m =
      match m.makeDirectories o.output with
      | (.error e, m) => (.error (.file .createDirectory o.output e), m)
      | (.ok (), m) =>
        match m.write o.cachePath cache with
        | (.error e, m) => (.error (.file .writeCache o.cachePath e), m)
        | (.ok (), m) => T.writeLoader o m := rfl

theorem compileFile_eq (T : Toolchain σ) (o : Options) (m : Machine) (s : σ) :
    T.compileFile o m s =
      match m.readSource o.filename with
      | .error e => (.error e, m, s)
      | .ok text =>
        match T.compileSource o (Source.prepare o.asModule text) m s with
        | (.error e, m, s) => (.error e, m, s)
        | (.ok cache, m, s) =>
          match T.writeOutputs o cache m with
          | (.error e, m) => (.error e, m, s)
          | (.ok loaderPath, m) =>
            (.ok ⟨o.filename, o.cachePath, loaderPath,
              Text.units (Source.prepare o.asModule text), cache.length⟩, m, s) := rfl

/-- compiles files in order, up to the first that fails -/
def compileFiles (T : Toolchain σ) (m : Machine) (s : σ) :
    List Options → Except CompileError (List Report) × Machine × σ
  | [] => (.ok [], m, s)
  | o :: rest =>
    match T.compileFile o m s with
    | (.error e, m, s) => (.error e, m, s)
    | (.ok report, m, s) =>
      match T.compileFiles m s rest with
      | (.error e, m, s) => (.error e, m, s)
      | (.ok reports, m, s) => (.ok (report :: reports), m, s)

end Toolchain

end CodeCache
