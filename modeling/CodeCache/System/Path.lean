/-
Path texts, by their text alone (no file system is looked at).

Names are what stands between slashes; empty names and `.` mean nothing, except that a relative path
may start with a `.` of its own. A path taken apart is never spelled anew: a parent is the beginning
of the text it is the parent of.
-/
import CodeCache.Text

namespace CodeCache.Path

/-! ## Taking apart -/

def isAbsolute (p : Text) : Bool := p.head? == some '/'

/-- what a path starts with, a slash or a `.` that is its first name, and the rest -/
def lead : Text → Text × Text
  | '/' :: rest => (['/'], rest)
  | ['.'] => (['.'], [])
  | '.' :: '/' :: rest => (['.'], '/' :: rest)
  | p => ([], p)

/-- the name means nothing -/
def isIdle (name : Text) : Bool := name == [] || name == ['.']

/-- the names that mean something -/
def names (p : Text) : List Text := (Text.splitOn '/' (lead p).2).filter fun name => !isIdle name

/-- the last name, unless it is `..` -/
def fileName? (p : Text) : Option Text :=
  match (names p).getLast? with
  | some name => if name = ['.', '.'] then none else some name
  | none => none

/-- a file name cut at its last point; a point in front of everything else does not cut -/
def cutName (name : Text) : Text × Option Text :=
  match Text.splitLast? '.' name with
  | some (stem, ext) => if stem.isEmpty then (name, none) else (stem, some ext)
  | none => (name, none)

/-- the file name up to its extension -/
def stem? (p : Text) : Option Text := (fileName? p).map fun name => (cutName name).1

/-- what follows the last point of the file name -/
def extension? (p : Text) : Option Text := (fileName? p).bind fun name => (cutName name).2

/-- the path without its last name; a path of one relative name has the empty parent, `/` and the
empty path have none -/
def parent? (p : Text) : Option Text :=
  let (start, body) := lead p
  match (Text.splitOn '/' body).reverse.dropWhile isIdle with
  | _ :: before => some (start ++ Text.join ['/'] (before.dropWhile isIdle).reverse)
  | [] => if start = ['.'] then some [] else none

/-- the path, its parent, the parent of that, … -/
def ancestorsWithin : Nat → Text → List Text
  | 0, p => [p]
  | fuel + 1, p =>
    match parent? p with
    | some parent => p :: ancestorsWithin fuel parent
    | none => [p]

/-- the path and all paths above it; each is shorter than the one before -/
def ancestors (p : Text) : List Text := ancestorsWithin p.length p

/-! ## Putting together -/

/-- `tail` seen from the directory `base`: an absolute path stands for itself -/
def join (base tail : Text) : Text :=
  if isAbsolute tail then tail
  else if base.isEmpty || base.getLast? == some '/' then base ++ tail
  else base ++ '/' :: tail

/-- the directory that holds the file: its parent, or `.` when that is empty or missing -/
def directory (p : Text) : Text :=
  match parent? p with
  | some parent => if parent.isEmpty then ['.'] else parent
  | none => ['.']

end CodeCache.Path
