/-
File systems, as values: files, directories and symbolic links by their absolute place.

A path text is resolved name by name as an operating system does it: `.` stays, `..` goes up, a
symbolic link in the middle is followed (at most forty in a row), a file in the middle or in front
of a slash is an error. Every operation gives back the file system it leaves. It fails for what its
path leads to, and then leaves what was there before, except that creating a whole directory path
keeps the directories it did create. How what is written can get lost is left to `Disk`.
-/
import CodeCache.System.Path
import CodeCache.System.OsError
import CodeCache.System.Program
import CodeCache.Text.Utf8

namespace CodeCache

/-- an absolute place: the names from the root down, none of them `.`, `..` or empty -/
abbrev Route := List Text

inductive Node where
  | file (content : Bytes) (executable : Bool) (program : Option Program)
  | directory
  | link (target : Text)
deriving DecidableEq, Repr

/-- the nodes below the root, each place once -/
structure FileSystem where
  nodes : List (Route × Node)
deriving DecidableEq, Repr

/-- where a path leads: a place, and the node there if there is one -/
structure Place where
  route : Route
  node : Option Node
deriving DecidableEq, Repr

namespace Route

/-- the absolute path text of a place -/
def text (r : Route) : Text := if r.isEmpty then ['/'] else r.flatMap fun name => '/' :: name

/-- the places are in the order of their names, a directory in front of what it holds -/
def le (a b : Route) : Bool := !decide (b < a)

end Route

namespace FileSystem

def empty : FileSystem := ⟨[]⟩

/-- the node at a place; the root is a directory -/
def node? (fs : FileSystem) (r : Route) : Option Node :=
  if r.isEmpty then some .directory else fs.nodes.lookup r

/-- puts a node at a place -/
def put (fs : FileSystem) (r : Route) (n : Node) : FileSystem :=
  ⟨(r, n) :: fs.nodes.filter (·.1 != r)⟩

/-- takes away the node at a place -/
def erase (fs : FileSystem) (r : Route) : FileSystem := ⟨fs.nodes.filter (·.1 != r)⟩

/-! ## Resolving paths -/

/-- the names of a path in the order in which they are gone through; a slash at the end asks for a
directory -/
def steps (p : Text) : List Text :=
  (Text.splitOn '/' p).filter (· != []) ++ if p.getLast? == some '/' then [['.']] else []

/-- how far a walk comes -/
inductive Walk where
  | arrived (place : Place)
  /-- stopped at a symbolic link in the directory `here`, with steps still to go behind it -/
  | link (here : Route) (target : Text) (rest : List Text)
  | failed (e : OsError)
deriving DecidableEq, Repr

/-- how a path is walked -/
inductive Manner where
  /-- links are followed -/
  | through
  /-- links are followed except at the end -/
  | upTo
  /-- links are followed, and every place passed is looked at by its own absolute path -/
  | spelled
deriving DecidableEq, Repr

/-- the longest name a directory can hold, in bytes -/
def longestName : Nat := 255

/-- the longest path, in bytes -/
def longestPath : Nat := 4095

/-- a place that cannot be looked at, because its name or its absolute path is too long -/
def tooLong (manner : Manner) (r : Route) : Bool :=
  longestName < Utf8.size (r.getLast?.getD []) ||
    (manner == .spelled && longestPath < Utf8.size r.text)

/-- walks from the directory `here` up to the first link that is to be followed; the last step may
lead to no node -/
def walk (fs : FileSystem) (manner : Manner) (here : Route) : List Text → Walk
  | [] => .arrived ⟨here, some .directory⟩
  | name :: rest =>
    if name = ['.'] then walk fs manner here rest
    else if name = ['.', '.'] then walk fs manner here.dropLast rest
    else if tooLong manner (here ++ [name]) then .failed .nameTooLong
    else
      match fs.node? (here ++ [name]) with
      | some .directory => walk fs manner (here ++ [name]) rest
      | some (.link target) =>
        if rest.isEmpty && manner == .upTo then .arrived ⟨here ++ [name], some (.link target)⟩
        else .link here target rest
      | some node =>
        if rest.isEmpty then .arrived ⟨here ++ [name], some node⟩ else .failed .notADirectory
      | none => if rest.isEmpty then .arrived ⟨here ++ [name], none⟩ else .failed .notFound

/-- walks on through at most `links` symbolic links -/
def walkThrough (fs : FileSystem) (manner : Manner) :
    Nat → Route → List Text → Except OsError Place
  | links, here, path =>
    match fs.walk manner here path with
    | .arrived place => .ok place
    | .failed e => .error e
    | .link here target rest =>
      match links with
      | 0 => .error .tooManyLinks
      | links + 1 =>
        walkThrough fs manner links (if Path.isAbsolute target then [] else here)
          (steps target ++ rest)

/-- how many symbolic links one path may lead through -/
def mostLinks : Nat := 40

/-- the place a path leads to, seen from the directory `here` -/
def place (fs : FileSystem) (here : Route) (manner : Manner) (p : Text) : Except OsError Place :=
  if List.contains p '\x00' then .error .nulInPath
  else if p.isEmpty then .error .notFound
  else if longestPath < Utf8.size p then .error .nameTooLong
  else walkThrough fs manner mostLinks (if Path.isAbsolute p then [] else here) (steps p)

/-- a place with the node there, if there is one -/
def Place.existing : Place → Except OsError (Route × Node)
  | ⟨route, some node⟩ => .ok (route, node)
  | ⟨_, none⟩ => .error .notFound

/-- the existing node a path leads to, links followed, and its place -/
def find (fs : FileSystem) (here : Route) (p : Text) : Except OsError (Route × Node) :=
  (fs.place here .through p).bind Place.existing

/-! ## Looking -/

def existsAt (fs : FileSystem) (here : Route) (p : Text) : Bool := (fs.find here p).toOption.isSome

def isFile (fs : FileSystem) (here : Route) (p : Text) : Bool :=
  match fs.find here p with
  | .ok (_, .file ..) => true
  | _ => false

def isDirectory (fs : FileSystem) (here : Route) (p : Text) : Bool :=
  match fs.find here p with
  | .ok (_, .directory) => true
  | _ => false

/-- a regular file that may be executed -/
def isExecutable (fs : FileSystem) (here : Route) (p : Text) : Bool :=
  match fs.find here p with
  | .ok (_, .file _ executable _) => executable
  | _ => false

/-- the absolute path without links, `.` and `..` that leads to the same node -/
def canonical (fs : FileSystem) (here : Route) (p : Text) : Except OsError Text :=
  ((fs.place here .spelled p).bind Place.existing).map fun (route, _) => route.text

def read (fs : FileSystem) (here : Route) (p : Text) : Except OsError Bytes :=
  match fs.find here p with
  | .error e => .error e
  | .ok (_, .file content _ _) => .ok content
  | .ok _ => .error .isADirectory

/-- the content of a file that is text -/
def readText (fs : FileSystem) (here : Route) (p : Text) : Except OsError Text :=
  match fs.read here p with
  | .error e => .error e
  | .ok bytes =>
    match Utf8.decode? bytes with
    | some t => .ok t
    | none => .error .notText

/-- the places under a directory with their nodes, in order -/
def under (fs : FileSystem) (r : Route) : List (Route × Node) :=
  (fs.nodes.filter fun (route, _) => r.isPrefixOf route && r.length < route.length).mergeSort
    fun a b => Route.le a.1 b.1

/-! ## Changing -/

/-- the path without the slashes at its end -/
def withoutSlashes (p : Text) : Text := Text.trimEnd (· == '/') p

/-- a path refused for its length; the slashes at its end count, and NUL is refused before -/
def isOverlong (p : Text) : Bool := longestPath < Utf8.size p && !List.contains p '\x00'

/-- creates a file or replaces its content, all of which is taken; what the file is allowed to do
stays -/
def write (fs : FileSystem) (here : Route) (p : Text) (content : Bytes) :
    Except OsError FileSystem :=
  if isOverlong p then .error .nameTooLong
  else if !p.isEmpty && p.getLast? == some '/' && !List.contains p '\x00' then
    match fs.place here .upTo (withoutSlashes p) with
    | .error e => .error (if (withoutSlashes p).isEmpty then .isADirectory else e)
    | .ok _ => .error .isADirectory
  else
    match fs.place here .through p with
    | .error e => .error e
    | .ok ⟨route, some (.file _ executable _)⟩ => .ok (fs.put route (.file content executable none))
    | .ok ⟨_, some _⟩ => .error .isADirectory
    | .ok ⟨route, none⟩ => .ok (fs.put route (.file content false none))

/-- creates one directory -/
def makeDirectory (fs : FileSystem) (here : Route) (p : Text) : Except OsError FileSystem :=
  if isOverlong p then .error .nameTooLong
  else if !p.isEmpty && (withoutSlashes p).isEmpty then .error .alreadyExists
  else
    match fs.place here .upTo (withoutSlashes p) with
    | .error e => .error e
    | .ok ⟨_, some _⟩ => .error .alreadyExists
    | .ok ⟨route, none⟩ => .ok (fs.put route .directory)

/-- creates the first of the paths after the ones behind it, each the parent of the one in front; a
directory that is there already is fine, and so is the empty path -/
def makeChain (fs : FileSystem) (here : Route) : List Text → Except OsError Unit × FileSystem
  | [] => (.error .notFound, fs)
  | p :: parents =>
    if p.isEmpty then (.ok (), fs)
    else
      match fs.makeDirectory here p with
      | .ok fs => (.ok (), fs)
      | .error .notFound =>
        match fs.makeChain here parents with
        | (.error e, fs) => (.error e, fs)
        | (.ok (), fs) =>
          match fs.makeDirectory here p with
          | .ok fs => (.ok (), fs)
          | .error e => (if fs.isDirectory here p then .ok () else .error e, fs)
      | .error e => (if fs.isDirectory here p then .ok () else .error e, fs)

/-- creates a directory and the missing ones above it -/
def makeDirectories (fs : FileSystem) (here : Route) (p : Text) :
    Except OsError Unit × FileSystem :=
  fs.makeChain here (Path.ancestors p)

/-- creates a symbolic link -/
def makeLink (fs : FileSystem) (here : Route) (target p : Text) : Except OsError FileSystem :=
  match fs.place here .upTo p with
  | .error e => .error e
  | .ok ⟨_, some _⟩ => .error .alreadyExists
  | .ok ⟨route, none⟩ => .ok (fs.put route (.link target))

/-- takes away a file or a link -/
def remove (fs : FileSystem) (here : Route) (p : Text) : Except OsError FileSystem :=
  match fs.place here .upTo p with
  | .error e => .error e
  | .ok ⟨_, some .directory⟩ => .error .isADirectory
  | .ok ⟨route, some _⟩ => .ok (fs.erase route)
  | .ok ⟨_, none⟩ => .error .notFound

/-- sets whether a file may be executed, and what it does then -/
def setProgram (fs : FileSystem) (here : Route) (p : Text) (executable : Bool)
    (program : Option Program) : Except OsError FileSystem :=
  match fs.find here p with
  | .error e => .error e
  | .ok (route, .file content _ _) => .ok (fs.put route (.file content executable program))
  | .ok _ => .error .isADirectory

end FileSystem

end CodeCache
