/-
Module tables: handlers by extension, and a slot for the value of each module by canonical path.

A file is loaded once, whatever path leads to it. Its slot is there from the first attempt on, and a
load that fails leaves it empty, so the next one tries again.
-/
import CodeCache.Compile.Extension
import CodeCache.Json
import CodeCache.System.Path

namespace CodeCache

/-- handlers have states in `η`, and what they load from has states in `ω` -/
structure ModuleTable (η : Type) where
  /-- each extension once, with its point -/
  handlers : List (Text × η)
  /-- each canonical path once; a slot is empty until a load has succeeded -/
  slots : List (Text × Option Json)

/-- how handlers load, and how paths are made canonical -/
structure ModuleLoading (η ω : Type) where
  canonical : ω → Text → Except OsError Text
  load : η → Text → ω → Except CompileError Json × η × ω

namespace ModuleTable

variable {η ω : Type}

def empty : ModuleTable η := ⟨[], []⟩

/-- puts a handler at an extension, in place of the one there -/
def setHandler (table : ModuleTable η) (extension : Text) (handler : η) : ModuleTable η :=
  { table with handlers := (extension, handler) :: table.handlers.filter (·.1 != extension) }

/-- registers a handler for files of an extension, replacing an earlier one -/
def register (table : ModuleTable η) (extension : Text) (handler : η) :
    Except OptionsError (ModuleTable η) :=
  (Extension.normalize extension).map fun extension => table.setHandler extension handler

/-- the value in the slot of a canonical path -/
def value? (table : ModuleTable η) (path : Text) : Option Json := (table.slots.lookup path).join

/-- makes an empty slot for a canonical path that has none -/
def reserve (table : ModuleTable η) (path : Text) : ModuleTable η :=
  if (table.slots.lookup path).isSome then table
  else { table with slots := (path, none) :: table.slots }

/-- puts a value into the slot of a canonical path -/
def fill (table : ModuleTable η) (path : Text) (value : Json) : ModuleTable η :=
  { table with slots := (path, some value) :: table.slots.filter (·.1 != path) }

/-- the extensions that have a handler -/
def extensions (table : ModuleTable η) : List Text := table.handlers.map (·.1)

/-- the extension a path is routed by; empty if it has none -/
def route (path : Text) : Text :=
  match Path.extension? path with
  | some extension => '.' :: extension
  | none => []

/-- loads the file at a canonical path into its slot with a handler for it, unless somebody else
filled the slot before it was taken -/
def load (L : ModuleLoading η ω) (table : ModuleTable η) (handler : η) (path : Text) (w : ω) :
    Except CompileError Json × ModuleTable η × ω :=
  match table.value? path with
  | some value => (.ok value, table, w)
  | none =>
    match L.load handler path w with
    | (.error e, handler, w) => (.error e, table.setHandler (route path) handler, w)
    | (.ok value, handler, w) =>
      (.ok value, (table.setHandler (route path) handler).fill path value, w)

/-- the value of the file a path leads to, loaded if it was not before -/
def require (L : ModuleLoading η ω) (table : ModuleTable η) (path : Text) (w : ω) :
    Except CompileError Json × ModuleTable η × ω :=
  match L.canonical w path with
  | .error e => (.error (.file .resolve path e), table, w)
  | .ok canonical =>
    match table.value? canonical with
    | some value => (.ok value, table, w)
    | none =>
      match table.handlers.lookup (route canonical) with
      | none => (.error (.unhandledExtension (route canonical)), table, w)
      | some handler => (table.reserve canonical).load L handler canonical w

/-- the file a path leads to has been loaded -/
def isLoaded (L : ModuleLoading η ω) (table : ModuleTable η) (path : Text) (w : ω) : Bool :=
  match L.canonical w path with
  | .error _ => false
  | .ok canonical => (table.value? canonical).isSome

end ModuleTable

end CodeCache
