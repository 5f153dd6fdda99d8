/-
Targets: options of a compile as they are configured, and laid over a draft that supplies what they
leave out.

A switch has two spellings of its key, and only one of them may be given. A list may stand for the
record, its items in the order of the fields; fields missing at its end are left out.
-/
import CodeCache.Compile.Options
import CodeCache.Cache.LayoutJson

namespace CodeCache

structure Target where
  filename : Text
  output : Option Text
  asModule : Bool
  electron : Bool
  electronPath : Option Text
  createLoader : Bool
  loaderName : Option Text
  extension : Option Text
deriving DecidableEq, Repr

namespace Target

/-- the target over a draft: its own settings first, the draft's where it has none -/
def toDraft (t : Target) (base : Draft) : Draft :=
  ⟨t.filename, t.output.or base.output, t.asModule, t.electron, t.electronPath.or base.electronPath,
    t.createLoader, t.loaderName.or base.loaderName, t.extension.or base.extension⟩

/-! ## Reading -/

def textOf? : Json → Option Text
  | .str t => some t
  | _ => none

/-- a text or null -/
def optionalTextOf? : Json → Option (Option Text)
  | .null => some none
  | .str t => some (some t)
  | _ => none

def boolOf? : Json → Option Bool
  | .bool b => some b
  | _ => none

/-- the value at one of the keys; two of them together are refused -/
def oneOf? (members : List (Text × Json)) (keys : List String) : Option (Option Json) :=
  match keys.filterMap fun key => members.lookup key.toList with
  | [] => some none
  | [value] => some (some value)
  | _ => none

/-- an optional text under one of the keys, absent if none of them is there -/
def textMember? (members : List (Text × Json)) (keys : List String) : Option (Option Text) :=
  match oneOf? members keys with
  | none => none
  | some none => some none
  | some (some value) => optionalTextOf? value

/-- a switch under one of the keys, off if none of them is there -/
def switchMember? (members : List (Text × Json)) (keys : List String) : Option Bool :=
  match oneOf? members keys with
  | none => none
  | some none => some false
  | some (some value) => boolOf? value

def ofMembers? (members : List (Text × Json)) : Option Target := do
  let filename ← textOf? (← members.lookup "filename".toList)
  let output ← textMember? members ["output"]
  let asModule ← switchMember? members ["compile_as_module", "compileAsModule"]
  let electron ← switchMember? members ["electron"]
  let electronPath ← textMember? members ["electron_path", "electronPath"]
  let createLoader ← switchMember? members ["create_loader", "createLoader"]
  let loaderName ← textMember? members ["loader_filename", "loaderFilename"]
  let extension ← textMember? members ["extname"]
  some ⟨filename, output, asModule, electron, electronPath, createLoader, loaderName, extension⟩

/-- the keys in the order in which a list gives their values -/
def keys : List Text :=
  ["filename", "output", "compile_as_module", "electron", "electron_path", "create_loader",
    "loader_filename", "extname"].map String.toList

/-- a target, as a record or as the list of its fields -/
def ofJson? (tail : Tail) : Json → Option Target
  | .obj members => ofMembers? members
  | .arr items =>
    if tail.accepts (items.drop keys.length) then ofMembers? (keys.zip items) else none
  | _ => none

end Target

end CodeCache
