/-
A machine: files, a working directory, environment variables, and a record of what the programs it
ran saw.

Paths given to a machine are seen from its working directory. Programs are found as the operating
system finds them: a name with a slash is a path, any other name is looked for in the directories of
PATH.
-/
import CodeCache.System.FileSystem

namespace CodeCache

structure Machine where
  files : FileSystem
  directory : Route
  environment : List (Text × Text)
  /-- what programs saw, each with the name of the program, in order -/
  record : List (Text × Sighting)
deriving DecidableEq, Repr

namespace Machine

/-! ## Environment -/

def valueOf? (m : Machine) (name : String) : Option Text := m.environment.lookup name.toList

/-- the machine with a variable set, or unset -/
def setVariable (m : Machine) (name : Text) (value : Option Text) : Machine :=
  let others := m.environment.filter (·.1 != name)
  { m with environment := match value with
    | some v => (name, v) :: others
    | none => others }

/-- the directories of PATH, in order; none if it is not set -/
def searchPath (m : Machine) : List Text :=
  match m.valueOf? "PATH" with
  | some value => Text.splitOn ':' value
  | none => []

/-! ## Programs -/

/-- the first directory entry of that name on PATH that is a regular file and may be executed, links
not resolved -/
def which? (m : Machine) (name : String) : Option Text :=
  (m.searchPath.map fun dir => Path.join dir name.toList).find? (m.files.isExecutable m.directory)

/-- what starting the file at a path gives, seen from the directory `here` -/
def load (m : Machine) (here : Route) (p : Text) : Except OsError Program :=
  match m.files.find here p with
  | .error e => .error e
  | .ok (_, .file _ true (some program)) => .ok program
  | .ok (_, .file _ true none) => .error .execFormat
  | .ok _ => .error .permissionDenied

/-- tries paths in turn; those that lead nowhere are passed over, and one that may not be executed
is the error if nothing else comes -/
def loadFirst (m : Machine) (here : Route) (denied : Bool) : List Text → Except OsError Program
  | [] => .error (if denied then .permissionDenied else .notFound)
  | p :: rest =>
    match m.load here p with
    | .ok program => .ok program
    | .error .permissionDenied => m.loadFirst here true rest
    | .error .notFound => m.loadFirst here denied rest
    | .error .notADirectory => m.loadFirst here denied rest
    | .error e => .error e

/-- the program that a name starts, seen from the directory `here` -/
def program (m : Machine) (here : Route) (name : Text) : Except OsError Program :=
  if List.contains name '\x00' then .error .nulInProgram
  else if name.isEmpty then .error .notFound
  else if List.contains name '/' then m.load here name
  else m.loadFirst here false (m.searchPath.map fun dir => Path.join dir name)

/-- the machine after a program saw something -/
def saw (m : Machine) (program : Text) (sightings : List Sighting) : Machine :=
  { m with record := m.record ++ sightings.map fun s => (program, s) }

/-- what the programs of that name saw, in order -/
def sightings (m : Machine) (program : Text) : List Sighting :=
  (m.record.filter (·.1 == program)).map (·.2)

/-! ## Files, seen from the working directory -/

/-- the machine with other files -/
def withFiles (m : Machine) (files : FileSystem) : Machine := { m with files := files }

def isFile (m : Machine) (p : Text) : Bool := m.files.isFile m.directory p

def read (m : Machine) (p : Text) : Except OsError Bytes := m.files.read m.directory p

def readText (m : Machine) (p : Text) : Except OsError Text := m.files.readText m.directory p

def canonical (m : Machine) (p : Text) : Except OsError Text := m.files.canonical m.directory p

/-- the machine after creating or replacing a file, unchanged if the path leads to none; `Disk.write`
is the write that can fail behind that -/
def write (m : Machine) (p : Text) (content : Bytes) : Except OsError Unit × Machine :=
  match m.files.write m.directory p content with
  | .ok files => (.ok (), m.withFiles files)
  | .error e => (.error e, m)

/-- the machine after creating a directory and the missing ones above it -/
def makeDirectories (m : Machine) (p : Text) : Except OsError Unit × Machine :=
  let (result, files) := m.files.makeDirectories m.directory p
  (result, m.withFiles files)

end Machine

end CodeCache
