/-
Project configuration: the engines' executables, defaults for loaders, layouts that go in front of
the built-in ones, and the targets of a build.

Relative paths in a configuration are seen from its root, the directory of its file. The file is the
one named, or the first of `names` in the nearest directory at or above the working directory that
has one; without any file the configuration is empty and its root is the working directory.
-/
import CodeCache.Compile.Target
import CodeCache.System.Machine
import CodeCache.Toml.Document

namespace CodeCache

structure Config where
  /-- the Node executable, as written -/
  node : Option Text
  /-- the Electron executable, as written -/
  electron : Option Text
  loaderName : Option Text
  extension : Option Text
  /-- layouts in front of the built-in ones -/
  layouts : List Layout
  targets : List Target
  root : Text
deriving DecidableEq, Repr

namespace Config

/-- a configuration that says nothing -/
def empty (root : Text) : Config := ⟨none, none, none, none, [], [], root⟩

def layoutTable (c : Config) : LayoutTable := .withOverrides c.layouts

/-! ## Paths and drafts -/

/-- a path of the configuration, seen from its root -/
def resolve (c : Config) (p : Text) : Text := if Path.isAbsolute p then p else Path.join c.root p

def nodePath (c : Config) : Option Text := c.node.map c.resolve

def electronPath (c : Config) : Option Text := c.electron.map c.resolve

/-- the draft that every compile starts from -/
def draft (c : Config) : Draft :=
  { Draft.empty with
    loaderName := c.loaderName
    extension := c.extension
    electronPath := c.electronPath }

/-- the target with its paths resolved -/
def resolveTarget (c : Config) (t : Target) : Target :=
  { t with
    filename := c.resolve t.filename
    output := t.output.map c.resolve
    electronPath := t.electronPath.map c.resolve }

/-- the draft of a target -/
def targetDraft (c : Config) (t : Target) : Draft := (c.resolveTarget t).toDraft c.draft

/-! ## Reading -/

/-- two optional texts: a record with two keys, or a list that starts with both -/
def textPair? (a b : String) : Json → Option (Option Text × Option Text)
  | .obj members => do
    let x ← Target.textMember? members [a]
    let y ← Target.textMember? members [b]
    some (x, y)
  | .arr (x :: y :: _) => do
    let x ← Target.optionalTextOf? x
    let y ← Target.optionalTextOf? y
    some (x, y)
  | _ => none

/-- the layouts of a record with one key, or of the first item of a list -/
def patchLayouts? : Json → Option (List Layout)
  | .obj members =>
    match members.lookup "layout".toList with
    | none => some []
    | some layouts => Layout.listOfJson? .ignored layouts
  | .arr [] => some []
  | .arr (layouts :: _) => Layout.listOfJson? .ignored layouts
  | _ => none

def targets? : Json → Option (List Target)
  | .arr items => items.mapM (Target.ofJson? .ignored)
  | _ => none

/-- the value at a key, read, or the default -/
def readAt? {α : Type} (members : List (Text × Json)) (key : String) (default : α)
    (read : Json → Option α) : Option α :=
  match members.lookup key.toList with
  | none => some default
  | some value => read value

def ofJson? (root : Text) : Json → Option Config
  | .obj members => do
    let (node, electron) ← readAt? members "engine" (none, none) (textPair? "node" "electron")
    let (loaderName, extension) ←
      readAt? members "loader" (none, none) (textPair? "filename" "extname")
    let layouts ← readAt? members "patch" [] patchLayouts?
    let targets ← readAt? members "target" [] targets?
    some ⟨node, electron, loaderName, extension, layouts, targets, root⟩
  | _ => none

/-- the configuration a text writes -/
def parse? (root text : Text) : Option Config :=
  (Toml.parse? text).bind fun value => ofJson? root value.toJson

/-! ## Finding and loading -/

/-- names of configuration files, the first that exists counts -/
def names : List String := ["kiln.toml", "kiln.config.toml", ".kilnrc.toml"]

/-- the configuration file of the nearest directory at or above `start` that has one -/
def find? (m : Machine) (start : Text) : Option Text :=
  (Path.ancestors start).findSome? fun dir =>
    (names.map fun name => Path.join dir name.toList).find? (m.files.existsAt m.directory)

end Config

inductive ConfigError where
  | missing (path : Text)
  | unreadable (cause : OsError)
  | malformed (path : Text)
deriving DecidableEq, Repr

def ConfigError.message : ConfigError → String
  | .missing path => s!"Config file not found: {String.ofList path}"
  | .unreadable cause => cause.message
  | .malformed path => s!"Failed to parse {String.ofList path}"

namespace Config

/-- the configuration in a file -/
def loadFile (m : Machine) (path : Text) : Except ConfigError Config :=
  if m.files.existsAt m.directory path then
    match m.readText path with
    | .error e => .error (.unreadable e)
    | .ok text =>
      match parse? (Path.directory path) text with
      | some c => .ok c
      | none => .error (.malformed path)
  else .error (.missing path)

/-- the configuration in the file named, or in the one found -/
def load (m : Machine) (path : Option Text) : Except ConfigError Config :=
  match path.or (find? m m.directory.text) with
  | some p => loadFile m p
  | none => .ok (empty m.directory.text)

end Config

end CodeCache
