/-
Rendering the loader script: the template with its two holes filled.
-/
import CodeCache.Loader.Template
import CodeCache.Compile.Extension
import CodeCache.Cache.LayoutJson
import CodeCache.Json.Printer
import CodeCache.System.Disk

namespace CodeCache.Loader

/-- the loader for caches with the given extension, patching by the given layouts -/
def render (extension : Text) (table : LayoutTable) : Except OptionsError Text :=
  match Extension.normalize extension with
  | .error e => .error e
  | .ok extension =>
    .ok (Text.replaceFirst layoutsMark table.toLoaderJson.render
      (Text.replaceFirst extensionMark (Json.renderString extension) template))

/-- writes a loader into a directory, next to the caches it loads, and gives its path; what is written
goes to this disk -/
def writeOn (disk : Disk) (directory name extension : Text) (table : LayoutTable) (m : Machine) :
    Except CompileError Text × Machine :=
  match render extension table with
  | .error e => (.error (.options e), m)
  | .ok script =>
    let path := Path.join directory name
    match disk.write m path (Utf8.encode script) with
    | (.ok (), m) => (.ok path, m)
    | (.error e, m) => (.error (.file .writeLoader path e), m)

/-- writes a loader on a sound disk -/
def write (directory name extension : Text) (table : LayoutTable) (m : Machine) :
    Except CompileError Text × Machine :=
  writeOn .sound directory name extension table m

theorem write_eq (directory name extension : Text) (table : LayoutTable) (m : Machine) :
    write directory name extension table m =
      match render extension table with
      | .error e => (.error (.options e), m)
      | .ok script =>
        match m.write (Path.join directory name) (Utf8.encode script) with
        | (.ok (), m) => (.ok (Path.join directory name), m)
        | (.error e, m) => (.error (.file .writeLoader (Path.join directory name) e), m) := rfl

end CodeCache.Loader
