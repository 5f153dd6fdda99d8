/-
Layouts as entries of a configuration: written as JSON and read back.

Main result, `listOfJson?_exact`. A list of layouts is read back from its JSON value and from its
text. What is read as a list of layouts is told exactly (`Describes`): a list of objects whose bounds
are version texts, null or missing and whose spans are lists of two positions, each span with at
least one byte and none in the length field. One pair of positions that is not such a span makes the
whole list unreadable.

Each reader has one lemma that says what it accepts, and the reader of a record is told by those of
its members; so that what was written is read back is one case of what is read.
-/
import Mathlib.Tactic
import CodeCache.Proofs.Cache.Versions

namespace CodeCache

/-! ## Positions and spans -/

@[simp]
theorem Json.nat_inj {m n : Nat} : Json.nat m = .nat n ↔ m = n := by
  rw [Json.nat, Json.nat, Json.int.injEq, Nat.cast_inj]

/-- the positions of the spans are numbers of 64 bits -/
def Layout.Addressable (l : Layout) : Prop := ∀ s ∈ l.spans, s.stop < UInt64.size

instance (l : Layout) : Decidable l.Addressable := by
  unfold Layout.Addressable; infer_instance

theorem Json.exact_nat {depth n : Nat} (h : n < UInt64.size) : Json.Exact depth (.nat n) := by
  have hsize : UInt64.size = 2 ^ 64 := rfl
  exact .int (by omega) (by omega)

theorem ByteSpan.exact_toJson {depth : Nat} {s : ByteSpan} (h : s.stop < UInt64.size) :
    Json.Exact (depth + 1) s.toJson := by
  refine .arr fun item hitem => ?_
  simp only [List.mem_cons, List.not_mem_nil, or_false] at hitem
  rcases hitem with rfl | rfl
  · exact Json.exact_nat (s.nonempty.trans h)
  · exact Json.exact_nat h

theorem Layout.exact_spans {depth : Nat} {l : Layout} (h : l.Addressable) :
    Json.Exact (depth + 2) (.arr (l.spans.map ByteSpan.toJson)) := by
  refine .arr fun item hitem => ?_
  obtain ⟨s, hs, rfl⟩ := List.mem_map.1 hitem
  exact ByteSpan.exact_toJson (h s hs)

theorem Layout.ordered_spans (l : Layout) :
    Json.ordered (.arr (l.spans.map ByteSpan.toJson)) = .arr (l.spans.map ByteSpan.toJson) := by
  rw [Json.ordered, Json.orderedItems_eq_self]
  intro item hitem
  obtain ⟨s, -, rfl⟩ := List.mem_map.1 hitem
  rfl

/-- at least one byte, and none of the four bytes of the length field -/
def ByteSpan.Admissible (start stop : Nat) : Prop :=
  start < stop ∧ ∀ i, start ≤ i → i < stop → ¬(8 ≤ i ∧ i < 12)

theorem ByteSpan.admissible_iff {start stop : Nat} :
    Admissible start stop ↔
      start < stop ∧ ¬(start < Header.fingerprintOffset ∧ Header.lengthOffset < stop) := by
  rw [Admissible, Header.fingerprintOffset, Header.lengthOffset]
  refine and_congr_right fun hlt => ⟨?_, ?_⟩
  · rintro h ⟨hstart, hstop⟩
    -- the first byte that the two have in common
    exact h (max start 8) (by omega) (by omega) (by omega)
  · intro h i hstart hstop
    omega

theorem ByteSpan.admissible (s : ByteSpan) : Admissible s.start s.stop :=
  admissible_iff.2 ⟨s.nonempty, s.clear⟩

theorem ByteSpan.make_eq_ok_iff {start stop : Nat} {s : ByteSpan} :
    make start stop = .ok s ↔ s.start = start ∧ s.stop = stop := by
  obtain ⟨start', stop', hne, hclear⟩ := s
  constructor
  · intro h
    rw [make] at h
    split_ifs at h
    cases h
    exact ⟨rfl, rfl⟩
  · rintro ⟨rfl, rfl⟩
    rw [make, dif_pos ⟨hne, hclear⟩]

theorem position?_eq_some_iff {j : Json} {n : Nat} :
    position? j = some n ↔ j = .nat n ∧ n < UInt64.size := by
  constructor
  · intro h
    cases j with
    | int m =>
      rw [position?] at h
      split_ifs at h with hm
      obtain rfl := Option.some.inj h
      exact ⟨by rw [Json.nat, Int.toNat_of_nonneg hm.1], by omega⟩
    | _ => cases h
  · rintro ⟨rfl, hn⟩
    have hrange : (0 : Int) ≤ n ∧ (n : Int) < UInt64.size := ⟨by omega, by exact_mod_cast hn⟩
    rw [Json.nat, position?, if_pos hrange, Int.toNat_natCast]

/-- a JSON value gives the two positions of a span -/
def ByteSpan.Describes (tail : Tail) (j : Json) (s : ByteSpan) : Prop :=
  ∃ rest, j = .arr (.nat s.start :: .nat s.stop :: rest) ∧ tail.accepts rest = true ∧
    s.stop < UInt64.size

theorem ByteSpan.ofJson?_eq_some_iff {tail : Tail} {j : Json} {s : ByteSpan} :
    ofJson? tail j = some s ↔ Describes tail j s := by
  constructor
  · intro h
    unfold ofJson? at h
    split at h
    · next start stop rest =>
      simp only [Option.bind_eq_bind, Option.bind_eq_some_iff, position?_eq_some_iff] at h
      obtain ⟨n, ⟨rfl, -⟩, m, ⟨rfl, hm⟩, h⟩ := h
      split_ifs at h with htail
      cases hmake : make n m with
      | error e => rw [hmake] at h; cases h
      | ok made =>
        rw [hmake] at h
        obtain rfl := Option.some.inj h
        obtain ⟨rfl, rfl⟩ := make_eq_ok_iff.1 hmake
        exact ⟨rest, rfl, htail, hm⟩
    · cases h
  · rintro ⟨rest, rfl, htail, hstop⟩
    have hstart : position? (.nat s.start) = some s.start :=
      position?_eq_some_iff.2 ⟨rfl, s.nonempty.trans hstop⟩
    have hstop' : position? (.nat s.stop) = some s.stop := position?_eq_some_iff.2 ⟨rfl, hstop⟩
    have hmake : make s.start s.stop = .ok s := make_eq_ok_iff.2 ⟨rfl, rfl⟩
    simp only [ofJson?, hstart, hstop', Option.bind_eq_bind, Option.bind_some, htail, if_true, hmake]
    rfl

/-! ## Bounds -/

section Written

variable {write : EngineVersion → Json}

theorem Json.exact_orNull {depth : Nat} (h : ∀ v, Json.Exact depth (write v))
    (bound : Option EngineVersion) : Json.Exact depth (.orNull (bound.map write)) := by
  cases bound with
  | none => exact .null
  | some v => exact h v

theorem Json.ordered_orNull (h : ∀ v, Json.ordered (write v) = write v)
    (bound : Option EngineVersion) :
    Json.ordered (.orNull (bound.map write)) = .orNull (bound.map write) := by
  cases bound with
  | none => rfl
  | some v => exact h v

end Written

/-- what an object has at the key of a bound: the text of a version, or nothing -/
inductive VersionRange.Bound : Option Json → Option EngineVersion → Prop
  | missing : Bound none none
  | null : Bound (some .null) none
  | text {t : Text} {v : EngineVersion} (h : EngineVersion.parse t = .ok v) :
    Bound (some (.str t)) (some v)

theorem EngineVersion.ofJson?_eq_some_iff {j : Json} {v : EngineVersion} :
    ofJson? j = some v ↔ ∃ t, j = .str t ∧ parse t = .ok v := by
  constructor
  · intro h
    cases j with
    | str t =>
      refine ⟨t, rfl, ?_⟩
      rw [ofJson?] at h
      cases hparse : parse t with
      | error e => rw [hparse] at h; cases h
      | ok w =>
        rw [hparse] at h
        rw [← Option.some.inj h]
    | _ => cases h
  · rintro ⟨t, rfl, hparse⟩
    rw [ofJson?, hparse]
    rfl

theorem EngineVersion.memberOfJson?_eq_some_iff {key : String} {j : Json}
    {bound : Option EngineVersion} :
    memberOfJson? key j = some bound ↔ VersionRange.Bound (j.member? key.toList) bound := by
  rw [memberOfJson?]
  constructor
  · intro h
    cases hmember : j.member? key.toList with
    | none =>
      rw [hmember] at h
      cases h
      exact .missing
    | some value =>
      rw [hmember] at h
      simp only [optionOfJson?] at h
      split at h
      · cases h
        exact .null
      · obtain ⟨v, hv, rfl⟩ := Option.map_eq_some_iff.1 h
        obtain ⟨t, rfl, hparse⟩ := ofJson?_eq_some_iff.1 hv
        exact .text hparse
  · intro h
    cases hmember : j.member? key.toList with
    | none =>
      rw [hmember] at h
      cases h
      rfl
    | some value =>
      rw [hmember] at h
      cases h with
      | null => rfl
      | text hparse =>
        simp only [optionOfJson?, ofJson?_eq_some_iff.2 ⟨_, rfl, hparse⟩, Option.map_some]

/-! ## Layouts -/

section Lists

variable {α β : Type} {f : α → Option β}

theorem mapM_eq_some_iff {l : List α} {l' : List β} :
    l.mapM f = some l' ↔ List.Forall₂ (fun x y => f x = some y) l l' := by
  induction l generalizing l' with
  | nil => simp [eq_comm]
  | cons x l ih =>
    simp only [List.mapM_cons, Option.bind_eq_bind, Option.bind_eq_some_iff, Option.pure_def,
      Option.some.injEq, List.forall₂_cons_left_iff, ← ih]
    constructor
    · rintro ⟨y, hy, ys, hys, rfl⟩
      exact ⟨y, ys, hy, hys, rfl⟩
    · rintro ⟨y, ys, hy, hys, rfl⟩
      exact ⟨y, hy, ys, hys, rfl⟩

theorem exists_of_forall₂ {R : α → β → Prop} {l : List α} {l' : List β} (h : List.Forall₂ R l l') :
    ∀ x ∈ l, ∃ y, R x y := by
  have hboth : List.Forall₂ (fun x y => (∃ y, R x y) ∧ R x y) l l' :=
    h.imp fun x y hxy => ⟨⟨y, hxy⟩, hxy⟩
  exact ((List.forall₂_and_left l l').1 hboth).1

theorem exists_map_eq {g : α → β} {l : List β} (h : ∀ y ∈ l, ∃ x, g x = y) :
    ∃ l' : List α, l'.map g = l := by
  have hrange : l ∈ Set.range (List.map g) := by
    rw [Set.range_list_map]
    exact h
  exact hrange

end Lists

/-- a JSON value gives the bounds and the spans of a layout -/
structure Layout.Describes (tail : Tail) (j : Json) (l : Layout) : Prop where
  isObject : ∃ members, j = .obj members
  min : VersionRange.Bound (j.member? "min".toList) l.range.min
  below : VersionRange.Bound (j.member? "below".toList) l.range.below
  spans : ∃ items, j.member? "spans".toList = some (.arr items) ∧
    List.Forall₂ (ByteSpan.Describes tail) items l.spans

theorem VersionRange.ofMembers?_eq_some_iff {j : Json} {r : VersionRange} :
    ofMembers? j = some r ↔
      Bound (j.member? "min".toList) r.min ∧ Bound (j.member? "below".toList) r.below := by
  obtain ⟨min, below⟩ := r
  simp only [ofMembers?, Option.bind_eq_bind, Option.bind_eq_some_iff, Option.some.injEq, mk.injEq,
    EngineVersion.memberOfJson?_eq_some_iff]
  constructor
  · rintro ⟨min, hmin, below, hbelow, rfl, rfl⟩
    exact ⟨hmin, hbelow⟩
  · rintro ⟨hmin, hbelow⟩
    exact ⟨min, hmin, below, hbelow, rfl, rfl⟩

theorem Layout.ofJson?_eq_some_iff {tail : Tail} {j : Json} {l : Layout} :
    ofJson? tail j = some l ↔ Describes tail j l := by
  have hspans : ∀ {items : List Json} {spans : List ByteSpan},
      items.mapM (ByteSpan.ofJson? tail) = some spans ↔
        List.Forall₂ (ByteSpan.Describes tail) items spans := by
    intro items spans
    simp only [mapM_eq_some_iff, ByteSpan.ofJson?_eq_some_iff]
  obtain ⟨range, spans⟩ := l
  constructor
  · intro h
    cases j with
    | obj members =>
      simp only [ofJson?, Option.bind_eq_bind, Option.bind_eq_some_iff] at h
      obtain ⟨read, hrange, h⟩ := h
      split at h
      · next items hitems =>
        obtain ⟨spans', hread, heq⟩ := Option.bind_eq_some_iff.1 h
        obtain ⟨rfl, rfl⟩ := Layout.mk.inj (Option.some.inj heq)
        obtain ⟨hmin, hbelow⟩ := VersionRange.ofMembers?_eq_some_iff.1 hrange
        exact ⟨⟨members, rfl⟩, hmin, hbelow, items, hitems, hspans.1 hread⟩
      · cases h
    | _ => cases h
  · rintro ⟨⟨members, rfl⟩, hmin, hbelow, items, hitems, hread⟩
    have hrange := VersionRange.ofMembers?_eq_some_iff.2 ⟨hmin, hbelow⟩
    rw [Json.member?] at hitems
    simp only [ofJson?, Option.bind_eq_bind, hrange, Option.bind_some, hitems, hspans.2 hread]

theorem Layout.listOfJson?_eq_some_iff {tail : Tail} {j : Json} {layouts : List Layout} :
    listOfJson? tail j = some layouts ↔
      ∃ items, j = .arr items ∧ List.Forall₂ (Describes tail) items layouts := by
  constructor
  · intro h
    cases j with
    | arr items =>
      rw [listOfJson?, mapM_eq_some_iff] at h
      exact ⟨items, rfl, h.imp fun _ _ => ofJson?_eq_some_iff.1⟩
    | _ => cases h
  · rintro ⟨items, rfl, h⟩
    rw [listOfJson?, mapM_eq_some_iff]
    exact h.imp fun _ _ => ofJson?_eq_some_iff.2

/-! ## Written and read back -/

/-- the members of a layout in the order in which they are written -/
def Layout.members (l : Layout) : List (Text × Json) :=
  [("min".toList, .orNull (l.range.min.map EngineVersion.toJson)),
    ("below".toList, .orNull (l.range.below.map EngineVersion.toJson)),
    ("spans".toList, .arr (l.spans.map ByteSpan.toJson))]

def Layout.listJson (layouts : List Layout) : Json := .arr (layouts.map toJson)

def Layout.listText (layouts : List Layout) : Text :=
  Json.render (.arr (layouts.map fun l => .obj l.members))

theorem Layout.exact_members {depth : Nat} {l : Layout} (h : l.Addressable) :
    Json.Exact (depth + 3) (.obj l.members) := by
  refine .obj fun m hm => ?_
  simp only [members, List.mem_cons, List.not_mem_nil, or_false] at hm
  rcases hm with rfl | rfl | rfl
  · exact Json.exact_orNull (fun v => .str v.render) _
  · exact Json.exact_orNull (fun v => .str v.render) _
  · exact exact_spans h

theorem Layout.ordered_members (l : Layout) : Json.ordered (.obj l.members) = l.toJson := by
  have hbound : ∀ v, Json.ordered (.orNull (Option.map EngineVersion.toJson v)) =
      .orNull (v.map EngineVersion.toJson) := Json.ordered_orNull fun _ => rfl
  rw [members, Json.ordered]
  simp only [Json.orderedMembers, hbound, l.ordered_spans]
  rfl

/-- the text of a list is read as its JSON value -/
theorem Layout.parse?_listText {layouts : List Layout} (h : ∀ l ∈ layouts, l.Addressable) :
    Json.parse? (listText layouts) = some (listJson layouts) := by
  have hexact : Json.Exact Json.deepest (.arr (layouts.map fun l => .obj l.members)) := by
    refine .arr fun item hitem => ?_
    obtain ⟨l, hl, rfl⟩ := List.mem_map.1 hitem
    exact exact_members (h l hl)
  have hordered : Json.ordered (.arr (layouts.map fun l => .obj l.members)) = listJson layouts := by
    rw [Json.ordered, listJson, Json.arr.injEq]
    clear h hexact
    induction layouts with
    | nil => rfl
    | cons l layouts ih =>
      rw [List.map_cons, Json.orderedItems, l.ordered_members, ih, List.map_cons]
  rw [listText, hexact.parse?_render, hordered]

theorem VersionRange.bound_toJson (v : Option EngineVersion) :
    Bound (some (.orNull (v.map EngineVersion.toJson))) v := by
  cases v with
  | none => exact .null
  | some v => exact .text v.parse_render

theorem ByteSpan.describes_toJson (tail : Tail) {s : ByteSpan} (h : s.stop < UInt64.size) :
    Describes tail s.toJson s := by
  have hnone : tail.accepts [] = true := by
    rw [Tail.accepts, List.isEmpty_nil, Bool.or_true]
  exact ⟨[], rfl, hnone, h⟩

theorem Layout.describes_toJson (tail : Tail) {l : Layout} (h : l.Addressable) :
    Describes tail l.toJson l where
  isObject := ⟨_, rfl⟩
  min := VersionRange.bound_toJson l.range.min
  below := VersionRange.bound_toJson l.range.below
  spans := by
    refine ⟨_, rfl, ?_⟩
    rw [List.forall₂_map_left_iff, List.forall₂_same]
    exact fun s hs => ByteSpan.describes_toJson tail (h s hs)

theorem Layout.listOfJson?_listJson (tail : Tail) {layouts : List Layout}
    (h : ∀ l ∈ layouts, l.Addressable) : listOfJson? tail (listJson layouts) = some layouts := by
  rw [listOfJson?_eq_some_iff]
  refine ⟨_, rfl, ?_⟩
  rw [List.forall₂_map_left_iff, List.forall₂_same]
  exact fun l hl => describes_toJson tail (h l hl)

/-! ## Which spans get in -/

/-- the bounds of a layout, and its spans as pairs of positions -/
def Layout.outline (l : Layout) : VersionRange × List (Nat × Nat) :=
  (l.range, l.spans.map fun s => (s.start, s.stop))

/-- the JSON value that a layout of this outline has, if there is one -/
def Layout.entry (outline : VersionRange × List (Nat × Nat)) : Json :=
  .record [("min", .orNull (outline.1.min.map EngineVersion.toJson)),
    ("below", .orNull (outline.1.below.map EngineVersion.toJson)),
    ("spans", .arr (outline.2.map fun p => .arr [.nat p.1, .nat p.2]))]

theorem Layout.entry_outline (l : Layout) : entry l.outline = l.toJson := by
  rw [entry, outline, toJson, List.map_map]
  rfl

/-- positions that all avoid the length field are those of spans -/
theorem Layout.exists_outline {outline : VersionRange × List (Nat × Nat)}
    (h : ∀ p ∈ outline.2, ByteSpan.Admissible p.1 p.2) : ∃ l : Layout, l.outline = outline := by
  have hspan : ∀ p ∈ outline.2, ∃ s : ByteSpan, (s.start, s.stop) = p := by
    intro p hp
    have hadmissible := ByteSpan.admissible_iff.1 (h p hp)
    exact ⟨⟨p.1, p.2, hadmissible.1, hadmissible.2⟩, rfl⟩
  obtain ⟨spans, hspans⟩ := exists_map_eq hspan
  exact ⟨⟨outline.1, spans⟩, Prod.ext rfl hspans⟩

theorem Layout.addressable_of_outline {l : Layout} (h : ∀ p ∈ l.outline.2, p.2 < UInt64.size) :
    l.Addressable := by
  intro s hs
  exact h _ (List.mem_map_of_mem hs)

/-- two values that are no span make the list they are in unreadable -/
theorem Layout.listOfJson?_eq_none {tail : Tail} {items : List Json} {item : Json}
    {spans : List Json} {a b : Json} (hitem : item ∈ items)
    (hspans : item.member? "spans".toList = some (.arr spans)) (hpair : .arr [a, b] ∈ spans)
    (hbad : ∀ start stop, a = .nat start → b = .nat stop →
      ¬(stop < UInt64.size ∧ ByteSpan.Admissible start stop)) :
    listOfJson? tail (.arr items) = none := by
  rw [Option.eq_none_iff_forall_ne_some]
  intro layouts hread
  obtain ⟨items', heq, hitems⟩ := listOfJson?_eq_some_iff.1 hread
  obtain rfl := Json.arr.inj heq
  obtain ⟨l, hl⟩ := exists_of_forall₂ hitems item hitem
  obtain ⟨spans', hspans', hread'⟩ := hl.spans
  obtain rfl : spans = spans' := Json.arr.inj (Option.some.inj (hspans.symm.trans hspans'))
  obtain ⟨s, rest, hs, -, hstop⟩ := exists_of_forall₂ hread' _ hpair
  obtain ⟨ha, hb, -⟩ : a = .nat s.start ∧ b = .nat s.stop ∧ [] = rest := by
    simpa using Json.arr.inj hs
  exact hbad s.start s.stop ha hb ⟨hstop, s.admissible⟩

/-- **Layouts are read back from what they are written as, and only spans that avoid the length field
get in.** Lists of layouts are read back from their JSON value and from their text, and make the same
table. A value is read as a list of layouts exactly if it describes them, bounds as versions and
spans as pairs of positions. All spans that are read have at least one byte and none of the length
field; all such pairs of positions are read as spans, whatever the bounds; and any other pair makes
the whole list unreadable. -/
theorem Layout.listOfJson?_exact (tail : Tail) :
    (∀ layouts : List Layout, (∀ l ∈ layouts, l.Addressable) →
      listOfJson? tail (listJson layouts) = some layouts ∧
      (Json.parse? (listText layouts)).bind (listOfJson? tail) = some layouts ∧
      (listOfJson? tail (listJson layouts)).map LayoutTable.withOverrides =
        some (LayoutTable.withOverrides layouts)) ∧
    (∀ j layouts, listOfJson? tail j = some layouts ↔
      ∃ items, j = .arr items ∧ List.Forall₂ (Describes tail) items layouts) ∧
    (∀ j layouts, listOfJson? tail j = some layouts →
      ∀ l ∈ layouts, ∀ s ∈ l.spans, ByteSpan.Admissible s.start s.stop) ∧
    (∀ outlines : List (VersionRange × List (Nat × Nat)),
      (∀ o ∈ outlines, ∀ p ∈ o.2, p.2 < UInt64.size ∧ ByteSpan.Admissible p.1 p.2) →
      ∃ layouts, layouts.map outline = outlines ∧
        listOfJson? tail (.arr (outlines.map entry)) = some layouts) ∧
    ∀ items item spans a b, item ∈ items → item.member? "spans".toList = some (.arr spans) →
      .arr [a, b] ∈ spans →
      (∀ start stop, a = .nat start → b = .nat stop →
        ¬(stop < UInt64.size ∧ ByteSpan.Admissible start stop)) →
      listOfJson? tail (.arr items) = none := by
  refine ⟨?_, ?_, ?_, ?_, ?_⟩
  · intro layouts h
    have hjson := listOfJson?_listJson tail h
    refine ⟨hjson, ?_, ?_⟩
    · rw [parse?_listText h, Option.bind_some, hjson]
    · rw [hjson, Option.map_some]
  · exact fun _ _ => listOfJson?_eq_some_iff
  · exact fun _ _ _ _ _ s _ => s.admissible
  · intro outlines h
    obtain ⟨layouts, rfl⟩ : ∃ layouts : List Layout, layouts.map outline = outlines :=
      exists_map_eq fun o ho => exists_outline fun p hp => (h o ho p hp).2
    have haddressable : ∀ l ∈ layouts, l.Addressable := by
      intro l hl
      exact addressable_of_outline fun p hp => (h _ (List.mem_map_of_mem hl) p hp).1
    have hentries : (layouts.map outline).map entry = layouts.map toJson := by
      rw [List.map_map]
      exact List.map_congr_left fun l _ => l.entry_outline
    refine ⟨layouts, rfl, ?_⟩
    rw [hentries]
    exact listOfJson?_listJson tail haddressable
  · intro items item spans a b hitem hspans hpair hbad
    exact listOfJson?_eq_none hitem hspans hpair hbad

/-- both sides of the length field up to the largest position; one byte into it, no list is read -/
theorem Layout.listOfJson?_exact_boundary :
    let layouts : List Layout :=
      [⟨⟨some ⟨12, 0, 0⟩, none⟩, [⟨0, 8, by decide, by decide⟩, ⟨12, 13, by decide, by decide⟩]⟩,
        ⟨.any, []⟩]
    (Json.parse? (listText layouts)).bind (listOfJson? .refused) = some layouts ∧
    (∃ read, read.map outline = [(.any, [(0, 8), (12, 2 ^ 64 - 1)]), (.any, [])] ∧
      listOfJson? .refused (.arr [entry (.any, [(0, 8), (12, 2 ^ 64 - 1)]), entry (.any, [])]) =
        some read) ∧
    listOfJson? .refused (.arr [entry (.any, [(12, 16)]), entry (.any, [(0, 8), (7, 9)])]) = none := by
  intro layouts
  have haddressable : ∀ l ∈ layouts, l.Addressable := by decide
  have hadmissible : ∀ o ∈ [(VersionRange.any, [(0, 8), (12, 2 ^ 64 - 1)]), (.any, [])],
      ∀ p ∈ o.2, p.2 < UInt64.size ∧ ByteSpan.Admissible p.1 p.2 := by
    simp only [ByteSpan.admissible_iff]
    decide
  refine ⟨((listOfJson?_exact .refused).1 layouts haddressable).2.1,
    (listOfJson?_exact .refused).2.2.2.1 _ hadmissible, ?_⟩
  refine (listOfJson?_exact .refused).2.2.2.2 _ (entry (.any, [(0, 8), (7, 9)]))
    [.arr [.nat 0, .nat 8], .arr [.nat 7, .nat 9]] (.nat 7) (.nat 9) (by simp) rfl (by simp) ?_
  rintro start stop hstart hstop ⟨-, hadmissible⟩
  obtain rfl := Json.nat_inj.1 hstart
  obtain rfl := Json.nat_inj.1 hstop
  rw [ByteSpan.admissible_iff] at hadmissible
  exact absurd hadmissible (by decide)

end CodeCache
