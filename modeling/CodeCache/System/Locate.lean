/-
Finding the executables of the engines.

Node: an explicit path, else the variable `KILN_NODE`, else PATH. Electron: an explicit path, else
`KILN_ELECTRON`, else `ELECTRON_EXEC_PATH`, else the package `electron` in the nearest
`node_modules` that has a usable one, else PATH. An explicit path or a variable decides alone: if it
names no file, nothing further is tried.
-/
import CodeCache.System.Machine
import CodeCache.Engine.Error

namespace CodeCache.Machine

/-- the path, if it leads to a file -/
def existingFile (m : Machine) (what : String) (p : Text) : Except EngineError Text :=
  if m.isFile p then .ok p else .error (.missing what p)

/-- the value of the first variable that is set -/
def firstVariable? (m : Machine) (names : List String) : Option Text := names.findSome? m.valueOf?

def locateNode (m : Machine) (explicit : Option Text) : Except EngineError Text :=
  match explicit.or (m.firstVariable? ["KILN_NODE"]) with
  | some p => m.existingFile "node" p
  | none =>
    match m.which? "node" with
    | some p => .ok p
    | none => .error (.missing "node" "not found in PATH")

/-- the binary of the package in the directory `dir`: the package records its name, relative to
`dist`, in `path.txt` -/
def packagedElectron? (m : Machine) (dir : Text) : Option Text :=
  let package := Path.join (Path.join dir "node_modules") "electron"
  match m.readText (Path.join package "path.txt") with
  | .ok name =>
    let binary := Path.join (Path.join package "dist") (Text.trim name)
    if m.isFile binary then some binary else none
  | .error _ => none

/-- the binary of the nearest usable package at or above a directory -/
def nearestElectron? (m : Machine) (searchFrom : Text) : Option Text :=
  (Path.ancestors searchFrom).findSome? m.packagedElectron?

def locateElectron (m : Machine) (explicit : Option Text) (searchFrom : Text) :
    Except EngineError Text :=
  match explicit.or (m.firstVariable? ["KILN_ELECTRON", "ELECTRON_EXEC_PATH"]) with
  | some p => m.existingFile "electron" p
  | none =>
    match (m.nearestElectron? searchFrom).or (m.which? "electron") with
    | some p => .ok p
    | none =>
      .error (.missing "electron"
        ("no node_modules/electron above ".toList ++ searchFrom ++ " and not in PATH".toList))

end CodeCache.Machine
