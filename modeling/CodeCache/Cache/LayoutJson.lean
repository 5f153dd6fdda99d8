/-
Layouts as JSON: the form in which they are configured (versions as texts), and the form the loader
script reads (versions as lists of three numbers).
-/
import CodeCache.Cache.Layout
import CodeCache.Json

namespace CodeCache

/-! ## Writing -/

def EngineVersion.toJson (v : EngineVersion) : Json := .str v.render

/-- the components as a list -/
def EngineVersion.toTriple (v : EngineVersion) : Json :=
  .arr [.nat v.major.toNat, .nat v.minor.toNat, .nat v.patch.toNat]

def ByteSpan.toJson (s : ByteSpan) : Json := .arr [.nat s.start, .nat s.stop]

/-- a value that may be missing -/
def Json.orNull : Option Json → Json
  | some j => j
  | none => .null

def VersionRange.toJson (r : VersionRange) : Json :=
  .record [("min", .orNull (r.min.map EngineVersion.toJson)),
    ("below", .orNull (r.below.map EngineVersion.toJson))]

def Layout.toJson (l : Layout) : Json :=
  .record [("min", .orNull (l.range.min.map EngineVersion.toJson)),
    ("below", .orNull (l.range.below.map EngineVersion.toJson)),
    ("spans", .arr (l.spans.map ByteSpan.toJson))]

/-- a layout as the loader script reads it -/
def Layout.toLoaderJson (l : Layout) : Json :=
  .record [("min", .orNull (l.range.min.map EngineVersion.toTriple)),
    ("below", .orNull (l.range.below.map EngineVersion.toTriple)),
    ("spans", .arr (l.spans.map ByteSpan.toJson))]

def LayoutTable.toLoaderJson (table : LayoutTable) : Json :=
  .arr (table.entries.map Layout.toLoaderJson)

/-! ## Reading -/

/-- whether a list that stands for a record or a tuple may go on behind its last field -/
inductive Tail where
  | refused
  | ignored
deriving DecidableEq, Repr

/-- what is left of a list behind its last field is acceptable -/
def Tail.accepts (tail : Tail) (rest : List Json) : Bool := tail == .ignored || rest.isEmpty

def EngineVersion.ofJson? : Json → Option EngineVersion
  | .str t => (EngineVersion.parse t).toOption
  | _ => none

/-- an optional version: a text or null -/
def EngineVersion.optionOfJson? : Json → Option (Option EngineVersion)
  | .null => some none
  | j => (EngineVersion.ofJson? j).map some

/-- an optional version at a key, absent if the key is -/
def EngineVersion.memberOfJson? (key : String) (j : Json) : Option (Option EngineVersion) :=
  match j.member? key.toList with
  | none => some none
  | some value => EngineVersion.optionOfJson? value

/-- the members `min` and `below` of an object -/
def VersionRange.ofMembers? (j : Json) : Option VersionRange := do
  let min ← EngineVersion.memberOfJson? "min" j
  let below ← EngineVersion.memberOfJson? "below" j
  some ⟨min, below⟩

/-- a range, as an object or as the list of its two bounds, either of which may be missing -/
def VersionRange.ofJson? (tail : Tail) : Json → Option VersionRange
  | .obj members => VersionRange.ofMembers? (.obj members)
  | .arr [] => some .any
  | .arr [min] => do some ⟨← EngineVersion.optionOfJson? min, none⟩
  | .arr (min :: below :: rest) => do
    let min ← EngineVersion.optionOfJson? min
    let below ← EngineVersion.optionOfJson? below
    if tail.accepts rest then some ⟨min, below⟩ else none
  | _ => none

/-- a position in a buffer: a natural number of 64 bits -/
def position? : Json → Option Nat
  | .int n => if 0 ≤ n ∧ n < UInt64.size then some n.toNat else none
  | _ => none

def ByteSpan.ofJson? (tail : Tail) : Json → Option ByteSpan
  | .arr (start :: stop :: rest) => do
    let start ← position? start
    let stop ← position? stop
    if tail.accepts rest then (ByteSpan.make start stop).toOption else none
  | _ => none

def Layout.ofJson? (tail : Tail) : Json → Option Layout
  | .obj members => do
    let range ← VersionRange.ofMembers? (.obj members)
    match members.lookup "spans".toList with
    | some (.arr spans) => do
      let spans ← spans.mapM (ByteSpan.ofJson? tail)
      some ⟨range, spans⟩
    | _ => none
  | _ => none

/-- a list of layouts -/
def Layout.listOfJson? (tail : Tail) : Json → Option (List Layout)
  | .arr layouts => layouts.mapM (Layout.ofJson? tail)
  | _ => none

end CodeCache
