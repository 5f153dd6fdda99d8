/-
The program. The files a command line looks at are read into a machine, the command line is run on
it, and what has changed is written back. Programs are not started from here, so a command that
needs an engine reports that it cannot be.
-/
import CodeCache.CommandLine.Files

namespace CodeCache.Main

/-- the machine with a file that has the given content, and the directories above it -/
def addFile (m : Machine) (p : Text) (content : Bytes) : Machine :=
  let files := (m.files.makeDirectories m.directory (Path.directory p)).2
  m.withFiles ((files.write m.directory p content).toOption.getD files)

/-- reads a file into the machine, if it is there -/
def readFile (m : Machine) (p : Text) : IO Machine := do
  try
    let content ← IO.FS.readBinFile (String.ofList (Path.join m.directory.text p))
    return addFile m p content.toList
  catch _ => return m

def readFiles (m : Machine) (paths : List Text) : IO Machine := paths.foldlM readFile m

/-- a variable of the environment, put into the machine -/
def readVariable (m : Machine) (name : String) : IO Machine := do
  return m.setVariable name.toList ((← IO.getEnv name).map String.toList)

/-- an empty machine in the working directory -/
def emptyMachine : IO Machine := do
  let directory := ((← IO.getEnv "PWD").getD "/").toList
  let route : Route := Path.names directory
  let files := (FileSystem.empty.makeDirectories [] route.text).2
  ["PATH", "KILN_NODE", "KILN_ELECTRON", "ELECTRON_EXEC_PATH"].foldlM readVariable
    ⟨files, route, [], []⟩

/-- writes one changed node -/
def writeNode (before : FileSystem) (entry : Route × Node) : IO Unit := do
  if before.node? entry.1 ≠ some entry.2 then
    match entry.2 with
    | .directory => IO.FS.createDirAll (String.ofList entry.1.text)
    | .file content _ _ => IO.FS.writeBinFile (String.ofList entry.1.text) ⟨content.toArray⟩
    | .link _ => return ()

/-- the machine a command line needs -/
def gather (line : CommandLine) : IO Machine := do
  let m ← emptyMachine
  let m ← readFiles m (line.configPaths m.directory.text)
  match Config.load m line.config with
  | .error _ => return m
  | .ok c =>
    readFiles m (CommandLine.operandPaths c line.command ++
      CommandLine.programPaths m.directory.text m c)

/-- runs the program and gives its exit code -/
def run (arguments : List Text) : IO UInt32 := do
  let m ←
    match CommandLine.read arguments with
    | .ok line => gather line
    | .error _ => emptyMachine
  let (ending, after) := CommandLine.run arguments m
  (after.files.under []).forM (writeNode m.files)
  IO.print (String.ofList ending.output)
  match ending with
  | .failed cause => IO.eprintln s!"Error: {cause.message}"
  | .misused => IO.eprint (String.ofList CommandLine.helpText)
  | .printed _ => return 0
  return UInt32.ofNat ending.exitCode

end CodeCache.Main

def main (arguments : List String) : IO UInt32 := CodeCache.Main.run (arguments.map String.toList)
