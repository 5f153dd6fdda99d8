/-
The loader script patches the bytes that the table says.

Main result, `embedded_lookup`. For the built-in table, with or without layouts in front of it, the
text that goes into the script is read back as a table of layouts; the script's lookup finds one for
every version, and its spans are those of `LayoutTable.spansFor`.

The table is read back as it was written (`parse?_toLoaderJson`), since its records are sorted and
its numbers are integers. The lookup then goes through the same list of layouts
(`layoutFor?_map_toLoaderJson`), and for each of them the two comparisons agree: number by number is
the lexicographic order (`compareVersions_lt_iff`), which is the order of versions
(`before_iff_components_lt`).
-/
import Mathlib.Tactic
import CodeCache.Loader.Lookup
import CodeCache.Proofs.Cache.Entries
import CodeCache.Proofs.Cache.Priority

namespace CodeCache

/-! ## The text of a table -/

theorem Layout.toLoaderJson_eq (l : Layout) :
    l.toLoaderJson = .obj [("below", .orNull (l.range.below.map EngineVersion.toTriple)),
      ("min", .orNull (l.range.min.map EngineVersion.toTriple)),
      ("spans", .arr (l.spans.map ByteSpan.toJson))] := rfl

theorem EngineVersion.exact_toTriple {depth : Nat} (v : EngineVersion) :
    Json.Exact (depth + 1) v.toTriple := by
  have hcomponent : ∀ n : UInt32, Json.Exact depth (.nat n.toNat) := fun n =>
    Json.exact_nat (n.toNat_lt.trans (by decide))
  refine .arr fun item hitem => ?_
  simp only [List.mem_cons, List.not_mem_nil, or_false] at hitem
  rcases hitem with rfl | rfl | rfl <;> exact hcomponent _

theorem Layout.exact_toLoaderJson {depth : Nat} {l : Layout} (h : l.Addressable) :
    Json.Exact (depth + 3) l.toLoaderJson := by
  rw [toLoaderJson_eq]
  refine .obj fun m hm => ?_
  simp only [List.mem_cons, List.not_mem_nil, or_false] at hm
  rcases hm with rfl | rfl | rfl
  · exact Json.exact_orNull EngineVersion.exact_toTriple _
  · exact Json.exact_orNull EngineVersion.exact_toTriple _
  · exact Layout.exact_spans h

theorem LayoutTable.exact_toLoaderJson {depth : Nat} {table : LayoutTable}
    (h : ∀ l ∈ table.entries, l.Addressable) : Json.Exact (depth + 4) table.toLoaderJson := by
  refine .arr fun item hitem => ?_
  obtain ⟨l, hl, rfl⟩ := List.mem_map.1 hitem
  exact Layout.exact_toLoaderJson (h l hl)

theorem Layout.ordered_toLoaderJson (l : Layout) : l.toLoaderJson.ordered = l.toLoaderJson := by
  have hbound : ∀ v, Json.ordered (.orNull (Option.map EngineVersion.toTriple v)) =
      .orNull (v.map EngineVersion.toTriple) := Json.ordered_orNull fun _ => rfl
  rw [toLoaderJson_eq, Json.ordered]
  simp only [Json.orderedMembers, hbound, l.ordered_spans]
  rfl

/-- **The text of a table is read back as the table.** -/
theorem LayoutTable.parse?_toLoaderJson {table : LayoutTable}
    (h : ∀ l ∈ table.entries, l.Addressable) :
    Json.parse? table.toLoaderJson.render = some table.toLoaderJson := by
  have hexact : Json.Exact Json.deepest table.toLoaderJson := exact_toLoaderJson h
  have hordered : table.toLoaderJson.ordered = table.toLoaderJson := by
    rw [toLoaderJson, Json.ordered, Json.orderedItems_eq_self]
    intro item hitem
    obtain ⟨l, -, rfl⟩ := List.mem_map.1 hitem
    exact l.ordered_toLoaderJson
  rw [hexact.parse?_render, hordered]

/-! ## Comparing versions -/

/-- the order of versions is the lexicographic order of their numbers -/
theorem EngineVersion.before_iff_components_lt (v w : EngineVersion) :
    v.before w = true ↔ v.components < w.components := by
  simp [before, components, List.cons_lt_cons_iff, UInt32.lt_iff_toNat_lt, ← UInt32.toNat_inj]

namespace Loader

/-- between lists of one length, comparing number by number is the lexicographic order -/
theorem compareVersions_lt_iff {as bs : List Int} (h : as.length = bs.length) :
    compareVersions as bs = .lt ↔ as < bs := by
  induction as generalizing bs with
  | nil =>
    obtain rfl : bs = [] := List.length_eq_zero_iff.1 h.symm
    simp [compareVersions]
  | cons a as ih =>
    cases bs with
    | nil => simp at h
    | cons b bs =>
      have htail : as.length = bs.length := by simpa using h
      rw [compareVersions, List.cons_lt_cons_iff]
      split_ifs with heq hlt
      · simp [heq, ih htail]
      · simp [hlt]
      · simp [heq, hlt]

/-! ## The lookup -/

theorem isLT_compareVersions (v w : EngineVersion) :
    (compareVersions v.components w.components).isLT = v.before w := by
  have hlength : v.components.length = w.components.length := rfl
  rw [Bool.eq_iff_iff, Ordering.isLT_iff_eq_lt, compareVersions_lt_iff hlength,
    v.before_iff_components_lt]

theorem isGE_compareVersions (v w : EngineVersion) :
    (compareVersions v.components w.components).isGE = !v.before w := by
  rw [← isLT_compareVersions]
  cases compareVersions v.components w.components <;> rfl

/-- a layout allows a version in the script if its range holds it -/
theorem entryAllows?_toLoaderJson (v : EngineVersion) (l : Layout) :
    entryAllows? v.components l.toLoaderJson = some (l.range.contains v) := by
  have hmin : boundAllows? Ordering.isGE v.components
      (.orNull (l.range.min.map EngineVersion.toTriple)) =
        some (l.range.min.all fun low => !v.before low) := by
    cases l.range.min with
    | none => rfl
    | some low => exact congrArg some (isGE_compareVersions v low)
  have hbelow : boundAllows? Ordering.isLT v.components
      (.orNull (l.range.below.map EngineVersion.toTriple)) =
        some (l.range.below.all fun high => v.before high) := by
    cases l.range.below with
    | none => rfl
    | some high => exact congrArg some (isLT_compareVersions v high)
  have hminMember : l.toLoaderJson.member? "min" =
      some (.orNull (l.range.min.map EngineVersion.toTriple)) := rfl
  have hbelowMember : l.toLoaderJson.member? "below" =
      some (.orNull (l.range.below.map EngineVersion.toTriple)) := rfl
  simp only [entryAllows?, hminMember, hbelowMember, hmin, hbelow, bind, Option.bind_some,
    VersionRange.contains]

/-- the script finds the layout that the table finds -/
theorem layoutFor?_map_toLoaderJson (v : EngineVersion) (layouts : List Layout) :
    layoutFor? v.components (layouts.map Layout.toLoaderJson) =
      some ((layouts.find? (·.range.contains v)).map Layout.toLoaderJson) := by
  induction layouts with
  | nil => rfl
  | cons l layouts ih =>
    rw [List.map_cons, layoutFor?, entryAllows?_toLoaderJson, List.find?_cons]
    cases l.range.contains v with
    | true => rfl
    | false => exact ih

theorem mapM_span? (spans : List ByteSpan) :
    (spans.map ByteSpan.toJson).mapM span? =
      some (spans.map fun s => ((s.start : Int), (s.stop : Int))) := by
  induction spans with
  | nil => rfl
  | cons s spans ih =>
    have hs : span? s.toJson = some ((s.start : Int), (s.stop : Int)) := rfl
    rw [List.map_cons, List.mapM_cons, hs, ih]
    rfl

theorem spans?_toLoaderJson (l : Layout) :
    spans? l.toLoaderJson = some (l.spans.map fun s => ((s.start : Int), (s.stop : Int))) := by
  have hmember : l.toLoaderJson.member? "spans" = some (.arr (l.spans.map ByteSpan.toJson)) := rfl
  rw [spans?, hmember]
  exact mapM_span? l.spans

end Loader

/-! ## The table in the script -/

/-- **For every version, the script's lookup in the table it holds finds a layout, and the spans it
patches are those of the table.** -/
theorem LayoutTable.embedded_lookup (overrides : List Layout)
    (haddressable : ∀ l ∈ overrides, l.Addressable) (table : LayoutTable)
    (hmade : table = builtIn ∨ table = withOverrides overrides) (v : EngineVersion) :
    ∃ entries entry, Json.parse? table.toLoaderJson.render = some (.arr entries) ∧
      Loader.layoutFor? v.components entries = some (some entry) ∧
      Loader.spansFor? (.arr entries) v.components =
        some ((table.spansFor v).map fun s => ((s.start : Int), (s.stop : Int))) := by
  -- the built-in table is the one behind no layouts
  obtain ⟨front, hfront, rfl⟩ : ∃ front : List Layout,
      (∀ l ∈ front, l.Addressable) ∧ table = withOverrides front := by
    rcases hmade with rfl | rfl
    · exact ⟨[], by simp, rfl⟩
    · exact ⟨overrides, haddressable, rfl⟩
  have hentries : ∀ l ∈ (withOverrides front).entries, l.Addressable := by
    intro l hl
    rcases List.mem_append.1 hl with hl | hl
    · exact hfront l hl
    · have hbuiltIn : ∀ l ∈ builtIn.entries, l.Addressable := by decide
      exact hbuiltIn l hl
  obtain ⟨l, hfind⟩ := exists_find? front v
  have hlookup : Loader.layoutFor? v.components
      ((withOverrides front).entries.map Layout.toLoaderJson) = some (some l.toLoaderJson) := by
    rw [Loader.layoutFor?_map_toLoaderJson, hfind, Option.map_some]
  refine ⟨_, l.toLoaderJson, parse?_toLoaderJson hentries, hlookup, ?_⟩
  rw [Loader.spansFor?, hlookup, spansFor, hfind]
  exact Loader.spans?_toLoaderJson l

/-- layouts that hold no version, and one that is shadowed; at its end the built-in table takes over -/
theorem LayoutTable.embedded_lookup_boundary :
    let outer : Layout := ⟨⟨some ⟨18, 0, 0⟩, some ⟨20, 1, 0⟩⟩, [⟨20, 24, by decide, by decide⟩]⟩
    let overrides : List Layout :=
      [⟨⟨some ⟨21, 0, 0⟩, some ⟨20, 0, 0⟩⟩, wide⟩, ⟨⟨some ⟨20, 1, 0⟩, some ⟨20, 1, 0⟩⟩, narrow⟩,
        outer, ⟨⟨some ⟨19, 0, 0⟩, none⟩, []⟩]
    (∃ entries entry, Json.parse? (withOverrides overrides).toLoaderJson.render =
        some (.arr entries) ∧
      Loader.layoutFor? [20, 0, 4294967295] entries = some (some entry) ∧
      Loader.spansFor? (.arr entries) [20, 0, 4294967295] = some [(20, 24)]) ∧
    ∃ entries entry, Json.parse? builtIn.toLoaderJson.render = some (.arr entries) ∧
      Loader.layoutFor? [20, 1, 0] entries = some (some entry) ∧
      Loader.spansFor? (.arr entries) [20, 1, 0] = some [(12, 16), (16, 20)] := by
  intro outer overrides
  have haddressable : ∀ l ∈ overrides, l.Addressable := by decide
  exact ⟨embedded_lookup overrides haddressable _ (.inr rfl) ⟨20, 0, 4294967295⟩,
    embedded_lookup overrides haddressable _ (.inl rfl) ⟨20, 1, 0⟩⟩

end CodeCache
