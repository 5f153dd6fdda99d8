/-
Which files a command line looks at, so that a machine with just these can run it.
-/
import CodeCache.CommandLine.Run

namespace CodeCache.CommandLine

/-- where the configuration may be -/
def configPaths (directory : Text) (line : CommandLine) : List Text :=
  match line.config with
  | some path => [path]
  | none =>
    (Path.ancestors directory).flatMap fun dir =>
      Config.names.map fun name => Path.join dir name.toList

/-- the sources or the cache a command reads -/
def operandPaths (c : Config) : Command → List Text
  | .compile k => [k.file]
  | .build _ => c.targets.map fun t => c.resolve t.filename
  | .loader _ => []
  | .inspect cache _ => [cache]
  | .run cache _ => [cache]

/-- the executables that are named, and the records of Electron packages -/
def programPaths (directory : Text) (m : Machine) (c : Config) : List Text :=
  c.nodePath.toList ++ c.electronPath.toList ++
    ["KILN_NODE", "KILN_ELECTRON", "ELECTRON_EXEC_PATH"].filterMap m.valueOf? ++
    (Path.ancestors directory).map fun dir => Path.join dir "node_modules/electron/path.txt"

end CodeCache.CommandLine
