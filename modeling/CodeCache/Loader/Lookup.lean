/-
The lookup of the loader script: which bytes it patches for a version of its host.

The script holds its layouts as the JSON value that was put into it. Versions are lists of three
numbers, compared number by number; the first layout whose two bounds allow the host's version
decides, and a bound that is null allows every version. Results are optional: a value that is not a
table of layouts has no lookup.
-/
import CodeCache.Cache.Version
import CodeCache.Json

namespace CodeCache

/-- the version as the script has it -/
def EngineVersion.components (v : EngineVersion) : List Int :=
  [v.major.toNat, v.minor.toNat, v.patch.toNat]

namespace Loader

/-- how two versions compare: by the first number in which they differ -/
def compareVersions : List Int → List Int → Ordering
  | a :: as, b :: bs => if a = b then compareVersions as bs else if a < b then .lt else .gt
  | _, _ => .eq

/-- the version a list of three numbers is -/
def version? : Json → Option (List Int)
  | .arr [.int major, .int minor, .int patch] => some [major, minor, patch]
  | _ => none

/-- a bound allows the current version: it is null, or the current version compares to it in one of
the accepted ways -/
def boundAllows? (accepts : Ordering → Bool) (current : List Int) : Json → Option Bool
  | .null => some true
  | bound => (version? bound).map fun limit => accepts (compareVersions current limit)

/-- both bounds of a layout allow the current version -/
def entryAllows? (current : List Int) (entry : Json) : Option Bool := do
  let min ← entry.member? "min"
  let below ← entry.member? "below"
  let above ← boundAllows? Ordering.isGE current min
  let under ← boundAllows? Ordering.isLT current below
  some (above && under)

/-- the first layout that allows the current version, if there is one -/
def layoutFor? (current : List Int) : List Json → Option (Option Json)
  | [] => some none
  | entry :: entries => do
    if ← entryAllows? current entry then some (some entry) else layoutFor? current entries

/-- the first and the last position, the latter exclusive, of a span -/
def span? : Json → Option (Int × Int)
  | .arr [.int start, .int stop] => some (start, stop)
  | _ => none

/-- the spans of a layout -/
def spans? (entry : Json) : Option (List (Int × Int)) :=
  match entry.member? "spans" with
  | some (.arr spans) => spans.mapM span?
  | _ => none

/-- the spans the script patches; without a layout for its host's version there are none -/
def spansFor? (layouts : Json) (current : List Int) : Option (List (Int × Int)) :=
  match layouts with
  | .arr entries => do
    match ← layoutFor? current entries with
    | some entry => spans? entry
    | none => some []
  | _ => none

end Loader

end CodeCache
