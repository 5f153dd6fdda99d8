/-
Values of a configuration in TOML.
-/
import CodeCache.Json

namespace CodeCache.Toml

inductive Value where
  | bool (b : Bool)
  | int (n : Int)
  | float (x : Binary64)
  /-- a date, a time, or both, as written -/
  | moment (t : Text)
  | str (t : Text)
  | array (items : List Value)
  | table (entries : List (Text × Value))
deriving Repr, Inhabited

mutual

/-- the value in the terms of JSON; a moment becomes an object with its text -/
def Value.toJson : Value → Json
  | .bool b => .bool b
  | .int n => .int n
  | .float x => .float x
  | .moment t => .record [("moment", .str t)]
  | .str t => .str t
  | .array items => .arr (itemsToJson items)
  | .table entries => Json.object (entriesToJson entries)

def itemsToJson : List Value → List Json
  | [] => []
  | item :: items => item.toJson :: itemsToJson items

def entriesToJson : List (Text × Value) → List (Text × Json)
  | [] => []
  | (key, value) :: entries => (key, value.toJson) :: entriesToJson entries

end

end CodeCache.Toml
