/-
Layouts in front of others take priority.

Main result, `spansFor_priority`. The spans of a version are those of the first override whose range
holds it, and without one those of the built-in table, which covers every version. So an override
changes nothing if all its versions belong to earlier ones, and overrides without a common version
may stand in any order.

Ranges are half-open intervals in the order of versions (`contains_iff_holds`). Beyond that the
lookup only looks for the first element with a property, which the two laws on `List.find?` say:
an element behind others that have it where it does is never found, and where at most one has it the
order does not matter.
-/
import CodeCache.Cache.Layout
import CodeCache.Proofs.Cache.Versions

namespace CodeCache

/-! ## Ranges -/

/-- the version lies in the range: not before its lower bound and before its upper one, in the order
of their numbers; a bound that is missing does not bound -/
def VersionRange.Holds (r : VersionRange) (v : EngineVersion) : Prop :=
  (∀ low ∈ r.min, low.triple ≤ v.triple) ∧ ∀ high ∈ r.below, v.triple < high.triple

theorem VersionRange.contains_iff_holds {r : VersionRange} {v : EngineVersion} :
    r.contains v = true ↔ r.Holds v := by
  have hlow : ∀ low : EngineVersion, v.before low = false ↔ low.triple ≤ v.triple := by
    intro low
    rw [← not_lt, ← v.before_iff_triple_lt, Bool.not_eq_true]
  obtain ⟨min, below⟩ := r
  cases min <;> cases below <;>
    simp [contains, Holds, hlow, EngineVersion.before_iff_triple_lt]

instance (r : VersionRange) (v : EngineVersion) : Decidable (r.Holds v) :=
  decidable_of_iff _ VersionRange.contains_iff_holds

/-! ## The first element with a property -/

section First

variable {α : Type} {p : α → Bool} {before after l l' : List α}

/-- what others in front of it cover is never found -/
theorem find?_shadowed {x : α} (h : p x = true → ∃ y ∈ before, p y = true) :
    (before ++ x :: after).find? p = (before ++ after).find? p := by
  rw [List.find?_append, List.find?_append]
  cases hfound : before.find? p with
  | some y => rfl
  | none =>
    have hx : p x = false := by
      by_contra hx
      obtain ⟨y, hy, hpy⟩ := h (by simpa using hx)
      exact List.find?_eq_none.1 hfound y hy hpy
    rw [List.find?_cons, hx]

/-- where at most one has the property, the order does not matter -/
theorem find?_perm (hperm : l.Perm l') (hone : l.Pairwise fun x y => ¬(p x = true ∧ p y = true)) :
    l.find? p = l'.find? p := by
  induction hperm with
  | nil => rfl
  | cons x _ ih => rw [List.find?_cons, List.find?_cons, ih hone.of_cons]
  | swap x y l =>
    have hxy : ¬(p y = true ∧ p x = true) := List.rel_of_pairwise_cons hone List.mem_cons_self
    simp only [List.find?_cons]
    cases hy : p y <;> cases hx : p x <;> simp_all
  | trans hfirst _ ihfirst ihsecond =>
    have hsymm : ∀ {x y : α}, ¬(p x = true ∧ p y = true) → ¬(p y = true ∧ p x = true) :=
      fun h hback => h hback.symm
    exact (ihfirst hone).trans (ihsecond ((hfirst.pairwise_iff hsymm).1 hone))

end First

/-! ## Tables -/

/-- the layout is the first of the list whose range holds the version -/
def Layout.IsFirst (layouts : List Layout) (v : EngineVersion) (l : Layout) : Prop :=
  ∃ before after, layouts = before ++ l :: after ∧ l.range.Holds v ∧
    ∀ other ∈ before, ¬other.range.Holds v

theorem Layout.find?_eq_some_iff {layouts : List Layout} {v : EngineVersion} {l : Layout} :
    layouts.find? (·.range.contains v) = some l ↔ IsFirst layouts v l := by
  simp only [List.find?_eq_some_iff_append, IsFirst, VersionRange.contains_iff_holds,
    Bool.not_eq_true', ← Bool.not_eq_true]
  constructor
  · rintro ⟨hl, before, after, rfl, hbefore⟩
    exact ⟨before, after, rfl, hl, hbefore⟩
  · rintro ⟨before, after, rfl, hl, hbefore⟩
    exact ⟨hl, before, after, rfl, hbefore⟩

/-- the versions whose built-in layout is the narrow one: from 12.0.0 on and before 20.1.0 -/
def EngineVersion.Narrow (v : EngineVersion) : Prop :=
  v.before ⟨12, 0, 0⟩ = false ∧ v.before ⟨20, 1, 0⟩ = true

instance (v : EngineVersion) : Decidable v.Narrow := by
  unfold EngineVersion.Narrow; infer_instance

theorem LayoutTable.spansFor_builtIn (v : EngineVersion) :
    builtIn.spansFor v = if v.Narrow then narrow else wide := by
  have hany : VersionRange.any.contains v = true := rfl
  have hrange : VersionRange.contains ⟨some ⟨12, 0, 0⟩, some ⟨20, 1, 0⟩⟩ v = true ↔ v.Narrow := by
    simp only [VersionRange.contains, Option.all_some, Bool.and_eq_true, Bool.not_eq_true',
      EngineVersion.Narrow]
  unfold spansFor builtIn
  simp only [List.find?_cons]
  split_ifs with h
  · rw [hrange.2 h]
  · rw [Bool.eq_false_iff.2 fun hc => h (hrange.1 hc), hany]

/-- behind any layouts, the built-in ones hold every version -/
theorem LayoutTable.exists_find? (overrides : List Layout) (v : EngineVersion) :
    ∃ l, (withOverrides overrides).entries.find? (·.range.contains v) = some l := by
  have hsome : ((withOverrides overrides).entries.find? (·.range.contains v)).isSome = true := by
    rw [List.find?_isSome]
    exact ⟨⟨VersionRange.any, wide⟩, by simp [withOverrides, builtIn], rfl⟩
  exact Option.isSome_iff_exists.1 hsome

theorem LayoutTable.find?_withOverrides (overrides : List Layout) (v : EngineVersion) :
    (withOverrides overrides).entries.find? (·.range.contains v) =
      (overrides.find? (·.range.contains v)).or (builtIn.entries.find? (·.range.contains v)) :=
  List.find?_append

theorem LayoutTable.spansFor_of_isFirst {overrides : List Layout} {v : EngineVersion} {l : Layout}
    (h : Layout.IsFirst overrides v l) : (withOverrides overrides).spansFor v = l.spans := by
  rw [spansFor, find?_withOverrides, Layout.find?_eq_some_iff.2 h, Option.some_or]

theorem LayoutTable.spansFor_of_none {overrides : List Layout} {v : EngineVersion}
    (h : ∀ l ∈ overrides, ¬l.range.Holds v) :
    (withOverrides overrides).spansFor v = builtIn.spansFor v := by
  have hnone : overrides.find? (·.range.contains v) = none := by
    rw [List.find?_eq_none]
    intro l hl hcontains
    exact h l hl (VersionRange.contains_iff_holds.1 hcontains)
  rw [spansFor, find?_withOverrides, hnone, Option.none_or, ← spansFor]

/-- the lookup does not tell apart overrides among which it finds the same -/
theorem LayoutTable.spansFor_congr {overrides others : List Layout} {v : EngineVersion}
    (h : overrides.find? (·.range.contains v) = others.find? (·.range.contains v)) :
    (withOverrides overrides).spansFor v = (withOverrides others).spansFor v := by
  rw [spansFor, spansFor, find?_withOverrides, find?_withOverrides, h]

theorem EngineVersion.narrow_iff {v : EngineVersion} :
    v.Narrow ↔ triple ⟨12, 0, 0⟩ ≤ v.triple ∧ v.triple < triple ⟨20, 1, 0⟩ := by
  rw [Narrow, ← not_lt, ← before_iff_triple_lt, ← before_iff_triple_lt, Bool.not_eq_true]

/-- **The first override that holds a version decides.** If none does, the built-in table decides,
which has bytes 12..16 for the versions from 12.0.0 on and before 20.1.0, and 12..16 and 16..20 for
all others; so for every version there is a layout that holds it. An override is of no effect if
earlier ones hold all its versions, and the order of overrides is of none if no version is held by
two of them. -/
theorem LayoutTable.spansFor_priority (overrides : List Layout) :
    (∀ v, (∃ l, Layout.IsFirst overrides v l ∧ (withOverrides overrides).spansFor v = l.spans) ∨
      ((∀ l ∈ overrides, ¬l.range.Holds v) ∧
        ((withOverrides overrides).spansFor v).map (fun s => (s.start, s.stop)) =
          if EngineVersion.triple ⟨12, 0, 0⟩ ≤ v.triple ∧ v.triple < EngineVersion.triple ⟨20, 1, 0⟩
          then [(12, 16)] else [(12, 16), (16, 20)])) ∧
    (∀ v, ∃ l ∈ (withOverrides overrides).entries, l.range.Holds v ∧
      (withOverrides overrides).spansFor v = l.spans) ∧
    (∀ before l after, overrides = before ++ l :: after →
      (∀ v, l.range.Holds v → ∃ other ∈ before, other.range.Holds v) →
      ∀ v, (withOverrides (before ++ after)).spansFor v = (withOverrides overrides).spansFor v) ∧
    ∀ others : List Layout, others.Perm overrides →
      overrides.Pairwise (fun l l' => ∀ v, ¬(l.range.Holds v ∧ l'.range.Holds v)) →
      ∀ v, (withOverrides others).spansFor v = (withOverrides overrides).spansFor v := by
  refine ⟨?_, ?_, ?_, ?_⟩
  · intro v
    cases hfound : overrides.find? (·.range.contains v) with
    | some l =>
      have hfirst := Layout.find?_eq_some_iff.1 hfound
      exact .inl ⟨l, hfirst, spansFor_of_isFirst hfirst⟩
    | none =>
      have hnone : ∀ l ∈ overrides, ¬l.range.Holds v := by
        intro l hl hholds
        exact List.find?_eq_none.1 hfound l hl (VersionRange.contains_iff_holds.2 hholds)
      refine .inr ⟨hnone, ?_⟩
      rw [spansFor_of_none hnone, spansFor_builtIn]
      simp only [EngineVersion.narrow_iff]
      split_ifs <;> rfl
  · intro v
    obtain ⟨l, hfound⟩ := exists_find? overrides v
    have hcontains : l.range.contains v = true := by simpa using List.find?_some hfound
    refine ⟨l, List.mem_of_find?_eq_some hfound, VersionRange.contains_iff_holds.1 hcontains, ?_⟩
    rw [spansFor, hfound]
  · rintro before l after rfl hcovered v
    refine (spansFor_congr (find?_shadowed ?_)).symm
    intro hl
    obtain ⟨other, hother, hholds⟩ := hcovered v (VersionRange.contains_iff_holds.1 hl)
    exact ⟨other, hother, VersionRange.contains_iff_holds.2 hholds⟩
  · intro others hperm hdisjoint v
    refine (spansFor_congr (find?_perm hperm.symm (hdisjoint.imp ?_))).symm
    intro l l' hnever hboth
    exact hnever v (hboth.imp VersionRange.contains_iff_holds.1 VersionRange.contains_iff_holds.1)

/-- a range inside an earlier one is of no effect; what is left may be turned around, as no version
is in both -/
theorem LayoutTable.spansFor_priority_nested :
    let outer : Layout := ⟨⟨some ⟨18, 0, 0⟩, some ⟨22, 0, 0⟩⟩, [⟨20, 24, by decide, by decide⟩]⟩
    let inner : Layout := ⟨⟨some ⟨19, 0, 0⟩, some ⟨20, 5, 0⟩⟩, narrow⟩
    let late : Layout := ⟨⟨some ⟨24, 0, 0⟩, none⟩, []⟩
    (∀ v, (withOverrides [outer, late]).spansFor v =
      (withOverrides [outer, inner, late]).spansFor v) ∧
    ∀ v, (withOverrides [late, outer]).spansFor v = (withOverrides [outer, late]).spansFor v := by
  intro outer inner late
  have hlow : EngineVersion.triple ⟨18, 0, 0⟩ ≤ EngineVersion.triple ⟨19, 0, 0⟩ := by decide
  have hhigh : EngineVersion.triple ⟨20, 5, 0⟩ ≤ EngineVersion.triple ⟨22, 0, 0⟩ := by decide
  have hgap : EngineVersion.triple ⟨22, 0, 0⟩ ≤ EngineVersion.triple ⟨24, 0, 0⟩ := by decide
  constructor
  · refine (spansFor_priority [outer, inner, late]).2.2.1 [outer] inner [late] rfl ?_
    rintro v ⟨hmin, hbelow⟩
    refine ⟨outer, List.mem_singleton_self _, ?_, ?_⟩
    · intro low hmem
      obtain rfl : ⟨18, 0, 0⟩ = low := Option.some.inj hmem
      exact hlow.trans (hmin _ rfl)
    · intro high hmem
      obtain rfl : ⟨22, 0, 0⟩ = high := Option.some.inj hmem
      exact (hbelow _ rfl).trans_le hhigh
  · refine (spansFor_priority [outer, late]).2.2.2 [late, outer] (List.Perm.swap _ _ _) ?_
    have hapart : ∀ v, ¬(outer.range.Holds v ∧ late.range.Holds v) := by
      rintro v ⟨⟨-, hbelow⟩, hmin, -⟩
      exact absurd (hgap.trans (hmin _ rfl)) (not_le.2 (hbelow _ rfl))
    simpa using hapart

end CodeCache
