/-
A patch, told by the positions that its spans cover.

A table may list its spans in any order, overlapping or several times over. A patch makes nothing of
that: how far it reaches is how far the covered positions reach (`needed_le_iff`), and each byte
comes from one side or the other as its position is covered or not.

Main result, `patch_bytewise`: when a patch succeeds, what it leaves in every byte, and otherwise
which of the three errors comes first; and that two tables which cover the same positions patch
alike.
-/
import CodeCache.Proofs.Cache.Patching

namespace CodeCache

namespace Patch

/-! ## How far the spans reach -/

/-- the bytes needed are the largest end of a span -/
theorem needed_eq_max (spans : List ByteSpan) :
    needed spans = (spans.map ByteSpan.stop).max?.getD 0 := by
  have hfold : needed spans = (spans.map ByteSpan.stop).foldl max 0 := by
    rw [List.foldl_map]
    rfl
  rw [hfold, List.foldl_max, Nat.zero_max]

theorem needed_le_of_stop_le {spans : List ByteSpan} {size : Nat}
    (h : ∀ s ∈ spans, s.stop ≤ size) : needed spans ≤ size := by
  rw [needed_eq_max]
  cases hmax : (spans.map ByteSpan.stop).max? with
  | none => exact Nat.zero_le size
  | some stop =>
    obtain ⟨s, hs, rfl⟩ := List.mem_map.1 (List.max?_mem hmax)
    exact h s hs

theorem covered_of_mem {spans : List ByteSpan} {s : ByteSpan} {i : Nat} (hs : s ∈ spans)
    (hi : s.covers i = true) : covered spans i = true :=
  List.any_eq_true.2 ⟨s, hs, hi⟩

/-- spans reach no further than their positions -/
theorem needed_le_iff {spans : List ByteSpan} {size : Nat} :
    needed spans ≤ size ↔ ∀ i, covered spans i = true → i < size := by
  constructor
  · intro h i hi
    exact (lt_needed_of_covered hi).trans_le h
  · intro h
    apply needed_le_of_stop_le
    intro s hs
    -- the last position of a span is its own, as no span is empty
    have hlast : s.covers (s.stop - 1) = true := by
      have := s.nonempty
      simp only [ByteSpan.covers, Bool.and_eq_true, decide_eq_true_eq]
      omega
    have := h _ (covered_of_mem hs hlast)
    omega

theorem needed_congr {spans spans' : List ByteSpan} (h : covered spans = covered spans') :
    needed spans = needed spans' := by
  apply Nat.le_antisymm
  · exact needed_le_iff.2 fun i hi => lt_needed_of_covered (h ▸ hi)
  · exact needed_le_iff.2 fun i hi => lt_needed_of_covered (h ▸ hi)

/-! ## The outcome -/

section Outcome

variable {table : LayoutTable} {v : EngineVersion} {reference : Except CacheError Bytes}
  {bytes target : Bytes}

theorem patch_noReference (e : CacheError) :
    patch table v (.error e) target = (.error e, target) := rfl

theorem patch_shortReference (h : bytes.length < needed (table.spansFor v)) :
    ∃ reason, patch table v (.ok bytes) target = (.error (.reference reason), target) := by
  unfold patch
  simp only [if_pos h]
  exact ⟨_, rfl⟩

theorem patch_shortTarget (hr : needed (table.spansFor v) ≤ bytes.length)
    (ht : target.length < needed (table.spansFor v)) :
    patch table v (.ok bytes) target =
      (.error (.invalidBuffer (needed (table.spansFor v)) target.length), target) := by
  unfold patch
  simp only [if_neg (Nat.not_lt.2 hr), if_pos ht]

theorem patch_copies (hr : needed (table.spansFor v) ≤ bytes.length)
    (ht : needed (table.spansFor v) ≤ target.length) :
    patch table v (.ok bytes) target = (.ok (), copySpans bytes target (table.spansFor v)) := by
  unfold patch
  simp only [if_neg (Nat.not_lt.2 hr), if_neg (Nat.not_lt.2 ht)]

theorem patch_fst_eq_ok_iff :
    (patch table v reference target).1 = .ok () ↔
      ∃ bytes, reference = .ok bytes ∧ needed (table.spansFor v) ≤ bytes.length ∧
        needed (table.spansFor v) ≤ target.length := by
  constructor
  · intro h
    rcases patch_cases table v reference target with ⟨bytes, hb, hr, ht, -⟩ | ⟨e, he⟩
    · exact ⟨bytes, hb, hr, ht⟩
    · rw [he] at h; cases h
  · rintro ⟨bytes, rfl, hr, ht⟩
    rw [patch_copies hr ht]

theorem copySpans_congr {spans spans' : List ByteSpan} (h : covered spans = covered spans')
    (hr : needed spans ≤ bytes.length) (ht : needed spans ≤ target.length) :
    copySpans bytes target spans = copySpans bytes target spans' := by
  apply List.ext_getElem?
  intro i
  rw [getElem?_copySpans hr ht, getElem?_copySpans (needed_congr h ▸ hr) (needed_congr h ▸ ht), h]

/-- tables that cover the same positions patch alike -/
theorem patch_congr {table' : LayoutTable}
    (h : covered (table.spansFor v) = covered (table'.spansFor v)) :
    patch table v reference target = patch table' v reference target := by
  cases reference with
  | error e => rfl
  | ok bytes =>
    unfold patch
    simp only [← needed_congr h]
    split_ifs with hr ht
    · rfl
    · rfl
    · rw [copySpans_congr h (Nat.not_lt.1 hr) (Nat.not_lt.1 ht)]

end Outcome

/-- **A patch is a choice for each byte.** A patch succeeds when there is a reference and the spans
end inside both buffers. It then keeps the size, takes the covered bytes from the reference and
leaves all others. It fails with the error of the reference, or because the reference is too short,
or because the target is, the first of these that applies, and leaves the target as it was. Of the
spans only the set of covered positions plays a part. -/
theorem patch_bytewise (table : LayoutTable) (v : EngineVersion)
    (reference : Except CacheError Bytes) (target : Bytes) :
    let spans := table.spansFor v
    let result := patch table v reference target
    needed spans = (spans.map ByteSpan.stop).max?.getD 0 ∧
    (result.1 = .ok () ↔ ∃ bytes, reference = .ok bytes ∧
      needed spans ≤ bytes.length ∧ needed spans ≤ target.length) ∧
    (∀ bytes, reference = .ok bytes → result.1 = .ok () →
      (∀ s ∈ spans, s.stop ≤ bytes.length ∧ s.stop ≤ target.length) ∧
      result.2.length = target.length ∧
      ∀ i, result.2[i]? = if covered spans i then bytes[i]? else target[i]?) ∧
    (∀ e, reference = .error e → result = (.error e, target)) ∧
    (∀ bytes, reference = .ok bytes → bytes.length < needed spans →
      ∃ reason, result = (.error (.reference reason), target)) ∧
    (∀ bytes, reference = .ok bytes → needed spans ≤ bytes.length →
      target.length < needed spans →
      result = (.error (.invalidBuffer (needed spans) target.length), target)) ∧
    ∀ table' : LayoutTable, (∀ i, covered spans i = covered (table'.spansFor v) i) →
      result = patch table' v reference target := by
  intro spans result
  refine ⟨needed_eq_max spans, patch_fst_eq_ok_iff, ?_, ?_, ?_, ?_, ?_⟩
  · rintro bytes rfl h
    obtain ⟨_, hb, hr, ht⟩ := patch_fst_eq_ok_iff.1 h
    cases hb
    have hcopies : result = (.ok (), copySpans bytes target spans) := patch_copies hr ht
    rw [hcopies]
    exact ⟨fun s hs => ⟨(stop_le_needed hs).trans hr, (stop_le_needed hs).trans ht⟩,
      length_copySpans hr ht, getElem?_copySpans hr ht⟩
  · rintro e rfl
    exact patch_noReference e
  · rintro bytes rfl hr
    exact patch_shortReference hr
  · rintro bytes rfl hr ht
    exact patch_shortTarget hr ht
  · intro table' h
    exact patch_congr (funext h)

/-- a table with the same spans for every version -/
def everywhere (spans : List ByteSpan) : LayoutTable := ⟨[⟨.any, spans⟩]⟩

/-- spans that overlap, repeat and run backwards -/
def tangled : List ByteSpan :=
  [⟨14, 18, by decide, by decide⟩, ⟨2, 5, by decide, by decide⟩, ⟨13, 17, by decide, by decide⟩,
    ⟨2, 5, by decide, by decide⟩]

/-- the positions of `tangled`, each covered once -/
def combed : List ByteSpan := [⟨2, 5, by decide, by decide⟩, ⟨13, 18, by decide, by decide⟩]

theorem covered_tangled (i : Nat) : covered tangled i = covered combed i := by
  rw [Bool.eq_iff_iff]
  simp only [covered, tangled, combed, ByteSpan.covers, List.any_cons, List.any_nil, Bool.or_eq_true,
    Bool.and_eq_true, decide_eq_true_eq, Bool.false_eq_true, or_false]
  omega

/-- the tangled spans on 19 bytes, on 17 and on a reference of 17, and beside the combed ones -/
theorem patch_bytewise_tangled :
    let v : EngineVersion := ⟨22, 12, 0⟩
    let reference : Bytes := (List.range 18).map UInt8.ofNat
    let target : Bytes := List.replicate 19 255
    let result := patch (everywhere tangled) v (.ok reference) target
    result.1 = .ok () ∧ result.2.length = 19 ∧
    result.2[4]? = some 4 ∧ result.2[6]? = some 255 ∧ result.2[14]? = some 14 ∧
    patch (everywhere tangled) v (.ok reference) (target.take 17) =
      (.error (.invalidBuffer 18 17), target.take 17) ∧
    (∃ reason, patch (everywhere tangled) v (.ok (reference.take 17)) (target.take 17) =
      (.error (.reference reason), target.take 17)) ∧
    patch (everywhere tangled) v (.error (.invalidVersion [])) target =
      (.error (.invalidVersion []), target) ∧
    result = patch (everywhere combed) v (.ok reference) target := by
  intro v reference target result
  obtain ⟨-, hok, hbytes, -, -, -, hsame⟩ :=
    patch_bytewise (everywhere tangled) v (.ok reference) target
  obtain ⟨-, -, -, -, -, hshort, -⟩ :=
    patch_bytewise (everywhere tangled) v (.ok reference) (target.take 17)
  obtain ⟨-, -, -, -, hboth, -, -⟩ :=
    patch_bytewise (everywhere tangled) v (.ok (reference.take 17)) (target.take 17)
  obtain ⟨-, -, -, hnone, -, -, -⟩ :=
    patch_bytewise (everywhere tangled) v (.error (.invalidVersion [])) target
  have hdone : result.1 = .ok () := hok.2 ⟨reference, rfl, by decide, by decide⟩
  obtain ⟨-, hlength, hbyte⟩ := hbytes reference rfl hdone
  exact ⟨hdone, hlength, hbyte 4, hbyte 6, hbyte 14, hshort reference rfl (by decide) (by decide),
    hboth _ rfl (by decide), hnone _ rfl, hsame (everywhere combed) covered_tangled⟩

end Patch

end CodeCache
