/-
Options of one compile.

A draft holds what was asked for; resolving it checks the file name, fills in what is missing and
checks what came out. The checks run in the order file name, extension, loader name.
-/
import CodeCache.Compile.Extension
import CodeCache.System.Path
import CodeCache.Text.Utf8

namespace CodeCache

/-- the stem of a source, whose path may be any bytes -/
def sourceStem (source : Bytes) : Bytes := Bytes.ofLetters ((Path.stem? source.letters).getD [])

/-- the name of the cache of a source: its stem as a text shows it, with U+FFFD for what is not UTF-8,
and the extension -/
def cacheName (source : Bytes) (extension : Text) : Text :=
  Utf8.decodeLossy (sourceStem source) ++ extension

/-- resolved options -/
structure Options where
  /-- the source -/
  filename : Text
  /-- the directory the cache goes to -/
  output : Text
  /-- the source is wrapped as a module -/
  asModule : Bool
  /-- it is compiled in an isolated Electron process -/
  electron : Bool
  /-- the Electron executable, instead of the one found -/
  electronPath : Option Text
  /-- a loader is written next to the cache -/
  createLoader : Bool
  loaderName : Text
  /-- the extension of the cache, with its point -/
  extension : Text
deriving DecidableEq, Repr

namespace Options

/-- the source's name with the extension in place of its own -/
def compiledName (o : Options) : Text := cacheName (Utf8.encode o.filename) o.extension

def cachePath (o : Options) : Text := Path.join o.output o.compiledName

def loaderPath (o : Options) : Text := Path.join o.output o.loaderName

/-- the name a loader has by default -/
def standardLoaderName : Text := "loader.js"

end Options

/-- options as asked for -/
structure Draft where
  filename : Text
  output : Option Text
  asModule : Bool
  electron : Bool
  electronPath : Option Text
  createLoader : Bool
  loaderName : Option Text
  extension : Option Text
deriving DecidableEq, Repr

namespace Draft

/-- nothing asked for, and no file named -/
def empty : Draft := ⟨[], none, false, false, none, false, none, none⟩

/-- a loader name that is a plain file name -/
def checkLoaderName (name : Text) : Except OptionsError Text :=
  if name.isEmpty || name.any Extension.isSeparator then .error (.unusableLoaderName name)
  else .ok name

def resolve (d : Draft) : Except OptionsError Options :=
  if (Path.fileName? d.filename).isNone then .error (.unnamedFile d.filename)
  else
    match Extension.normalize (d.extension.getD Extension.standard) with
    | .error e => .error e
    | .ok extension =>
      match checkLoaderName (d.loaderName.getD Options.standardLoaderName) with
      | .error e => .error e
      | .ok loaderName =>
        .ok ⟨d.filename, d.output.getD (Path.directory d.filename), d.asModule, d.electron,
          d.electronPath, d.createLoader, loaderName, extension⟩

end Draft

end CodeCache
