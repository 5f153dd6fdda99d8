/-
JSON values.

Numbers are integers from -2^63 to 2^64 - 1 or binary floating-point numbers; objects keep their
members sorted by key, each key once (`insertMember`, the later value wins).
-/
import CodeCache.Text
import CodeCache.Binary64

namespace CodeCache

inductive Json where
  | null
  | bool (b : Bool)
  | int (n : Int)
  | float (x : Binary64)
  | str (t : Text)
  | arr (items : List Json)
  | obj (members : List (Text × Json))
deriving Repr, Inhabited

namespace Json

/-- puts a member at its place in the order of the keys; an earlier member of the same key is
replaced -/
def insertMember (key : Text) (value : Json) : List (Text × Json) → List (Text × Json)
  | [] => [(key, value)]
  | (k, v) :: rest =>
    if key = k then (key, value) :: rest
    else if key < k then (key, value) :: (k, v) :: rest
    else (k, v) :: insertMember key value rest

/-- the object with the members of a list, later ones winning over earlier ones of the same key -/
def object (members : List (Text × Json)) : Json :=
  .obj (members.foldl (fun fields (k, v) => insertMember k v fields) [])

/-- the object with the members of a list, keys given as literals -/
def record (members : List (String × Json)) : Json :=
  object (members.map fun (k, v) => (k.toList, v))

/-- the value of a natural number -/
def nat (n : Nat) : Json := .int n

/-- the value at a key, if the value is an object that has it -/
def member? (key : Text) : Json → Option Json
  | .obj members => members.lookup key
  | _ => none

end Json

end CodeCache
