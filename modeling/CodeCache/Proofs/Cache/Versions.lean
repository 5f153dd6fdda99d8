/-
Versions of the engine's host: which texts write them, and how they compare.

Main result, `parse_exact`. Every text has one layout as a version text (`Spelling`): its components,
with a `v` in front of them that may be missing, something behind them that a `-` or `+` cuts off,
and blanks around it all. The text is a version exactly when the first three components, or as many
as there are, are numbers below 2 ^ 32 (`Numbered`); nothing else in it counts. What a version is
written as is read back, and versions compare as their triples of numbers.

That a layout is found rests on two cuts that are each inverted by their law: `Text.trim_around` for
the blanks and `Text.splitOn_join` for the components (`Spelling.core_eq`).
-/
import Mathlib.Data.Prod.Lex
import CodeCache.Cache.LayoutJson
import CodeCache.Proofs.Json.ReadBack
import CodeCache.Proofs.Text.Cutting
import CodeCache.Proofs.Text.Trimming

namespace CodeCache.EngineVersion

/-! ## The layout of a version text -/

/-- a text taken apart as a version text -/
structure Spelling (t : Text) where
  lead : Text
  /-- the letter `v`, or nothing -/
  mark : Text
  components : List Text
  /-- what does not count, with the `-` or `+` in front of it -/
  cut : Text
  trail : Text
  text : t = lead ++ (mark ++ Text.join ['.'] components ++ cut) ++ trail
  lead_blank : lead.Blank
  trail_blank : trail.Blank
  trimmed : Text.Trimmed (mark ++ Text.join ['.'] components ++ cut)
  marked : mark = ['v'] ∨ mark = [] ∧ 'v' ∉ (Text.join ['.'] components ++ cut).head?
  nonempty : components ≠ []
  plain : ∀ component ∈ components, ∀ c ∈ component, c ≠ '.' ∧ c ≠ '-' ∧ c ≠ '+'
  cuts : ∀ c ∈ cut.head?, c = '-' ∨ c = '+'

/-- a character that does not end the part of a text that counts -/
def continues (c : Char) : Bool := c != '-' && c != '+'

theorem continues_iff {c : Char} : continues c = true ↔ c ≠ '-' ∧ c ≠ '+' := by
  simp [continues]

theorem Spelling.join_continues {t : Text} (s : Spelling t) :
    ∀ c ∈ Text.join ['.'] s.components, continues c = true := by
  intro c hc
  rcases Text.mem_of_mem_join hc with hpoint | ⟨component, hcomponent, hc⟩
  · obtain rfl := List.mem_singleton.1 hpoint
    decide
  · exact continues_iff.2 (s.plain component hcomponent c hc).2

/-- what counts of a text are its components, whatever is around them -/
theorem Spelling.core_eq {t : Text} (s : Spelling t) : core t = Text.join ['.'] s.components := by
  have htrim : Text.trim t = s.mark ++ (Text.join ['.'] s.components ++ s.cut) := by
    conv_lhs => rw [s.text]
    rw [Text.trim_around s.lead_blank s.trimmed s.trail_blank, List.append_assoc]
  have hbare : (['v'].isPrefixOf? (Text.trim t)).getD (Text.trim t) =
      Text.join ['.'] s.components ++ s.cut := by
    rw [htrim]
    rcases s.marked with hmark | ⟨hmark, hfirst⟩
    · rw [hmark]
      rfl
    · rw [hmark, List.nil_append, Text.dropped_of_not_mem hfirst]
  have hcut : s.cut.takeWhile continues = [] := by
    cases hfirst : s.cut with
    | nil => rfl
    | cons c more =>
      have hc : ¬continues c = true := by
        rcases s.cuts c (by rw [hfirst]; rfl) with rfl | rfl <;> decide
      rw [List.takeWhile_cons_of_neg hc]
  calc core t = (Text.join ['.'] s.components ++ s.cut).takeWhile continues :=
        congrArg (List.takeWhile continues) hbare
    _ = Text.join ['.'] s.components := by
        rw [List.takeWhile_append_of_pos s.join_continues, hcut, List.append_nil]

theorem Spelling.splitOn_core {t : Text} (s : Spelling t) :
    Text.splitOn '.' (core t) = s.components := by
  have hpoints : ∀ component ∈ s.components, '.' ∉ component := by
    intro component hcomponent hc
    exact (s.plain component hcomponent '.' hc).1 rfl
  rw [s.core_eq, Text.splitOn_join s.nonempty hpoints]

theorem exists_mark (t : Text) :
    ∃ mark, t = mark ++ (['v'].isPrefixOf? t).getD t ∧
      (mark = ['v'] ∨ mark = [] ∧ 'v' ∉ ((['v'].isPrefixOf? t).getD t).head?) := by
  rcases Text.dropped_cases 'v' t with hv | ⟨hfirst, hbare⟩
  · exact ⟨['v'], hv, .inl rfl⟩
  · exact ⟨[], hbare.symm, .inr ⟨rfl, by rwa [hbare]⟩⟩

theorem exists_spelling (t : Text) : Nonempty (Spelling t) := by
  obtain ⟨lead, trail, ht, hlead, htrail, htrimmed⟩ := Text.exists_trim t
  obtain ⟨mark, hmark, hmarked⟩ := exists_mark (Text.trim t)
  set bare := (['v'].isPrefixOf? (Text.trim t)).getD (Text.trim t) with hbare
  have hbody : Text.join ['.'] (Text.splitOn '.' (core t)) ++ bare.dropWhile continues = bare := by
    rw [Text.join_splitOn]
    exact List.takeWhile_append_dropWhile
  have htrim : Text.trim t =
      mark ++ Text.join ['.'] (Text.splitOn '.' (core t)) ++ bare.dropWhile continues := by
    rw [List.append_assoc, hbody, ← hmark]
  exact ⟨{
    lead, mark, trail
    components := Text.splitOn '.' (core t)
    cut := bare.dropWhile continues
    text := by rw [← htrim, ← ht]
    lead_blank := hlead
    trail_blank := htrail
    trimmed := by rwa [← htrim]
    marked := by rwa [hbody]
    nonempty := by
      rw [Text.splitOn_eq]
      exact List.splitOn_ne_nil _ _
    plain := by
      intro component hcomponent c hc
      obtain ⟨hmem, hpoint⟩ := Text.mem_of_mem_splitOn hcomponent c hc
      exact ⟨hpoint, continues_iff.1 (List.mem_takeWhile_imp hmem)⟩
    cuts := by
      intro c hc
      have hstop := Text.head?_dropWhile hc
      by_contra hneither
      rw [not_or] at hneither
      rw [continues_iff.2 hneither] at hstop
      cases hstop }⟩

/-! ## The numbers -/

/-- a component that may be missing gives this number -/
def NumberOf : Option Text → UInt32 → Prop
  | some component, n => Text.Numeral component n.toNat
  | none, n => n = 0

/-- the first three components give the numbers of a version -/
@[mk_iff]
structure Numbered (components : List Text) (v : EngineVersion) : Prop where
  major : NumberOf components[0]? v.major
  minor : NumberOf components[1]? v.minor
  patch : NumberOf components[2]? v.patch

theorem component?_eq_some_iff {t : Text} {n : UInt32} :
    component? t = some n ↔ Text.Numeral t n.toNat := by
  rw [← Text.toNat?_eq_some_iff, component?]
  cases hnumber : Text.toNat? t with
  | none => simp
  | some m =>
    by_cases hm : m < UInt32.size
    · simp only [if_pos hm, Option.some.injEq, ← UInt32.toNat_inj, UInt32.toNat_ofNat_of_lt' hm]
    · have hn := n.toNat_lt_size
      simp only [if_neg hm, Option.some.injEq, reduceCtorEq, false_iff]
      omega

theorem ofComponents?_eq_some_iff {components : List Text} {v : EngineVersion}
    (hne : components ≠ []) : ofComponents? components = some v ↔ Numbered components v := by
  obtain ⟨major, minor, patch⟩ := v
  have hzero : ∀ n : UInt32, 0 = n ↔ n = 0 := fun n => eq_comm
  match components, hne with
  | [a], _ =>
    simp [ofComponents?, Option.bind_eq_some_iff, component?_eq_some_iff, numbered_iff, NumberOf,
      hzero]
  | [a, b], _ =>
    simp [ofComponents?, Option.bind_eq_some_iff, component?_eq_some_iff, numbered_iff, NumberOf,
      hzero]
  | a :: b :: c :: _, _ =>
    simp [ofComponents?, Option.bind_eq_some_iff, component?_eq_some_iff, numbered_iff, NumberOf]

/-- only the first three components count -/
theorem numbered_congr {components others : List Text} {v : EngineVersion}
    (h : components.take 3 = others.take 3) : Numbered components v ↔ Numbered others v := by
  have hsame : ∀ i < 3, components[i]? = others[i]? := by
    intro i hi
    rw [← List.getElem?_take_of_lt hi, h, List.getElem?_take_of_lt hi]
  rw [numbered_iff, numbered_iff, hsame 0 (by decide), hsame 1 (by decide), hsame 2 (by decide)]

/-! ## Reading -/

/-- a text is read by the numbers of its components, if they are numbers -/
theorem Spelling.parse_eq_ok_iff {t : Text} (s : Spelling t) {v : EngineVersion} :
    parse t = .ok v ↔ Numbered s.components v := by
  rw [← ofComponents?_eq_some_iff s.nonempty, parse, s.splitOn_core]
  cases ofComponents? s.components <;> simp

theorem parse_error_iff {t : Text} {e : CacheError} :
    parse t = .error e ↔ e = .invalidVersion t ∧ ∀ v, parse t ≠ .ok v := by
  rw [parse]
  cases ofComponents? (Text.splitOn '.' (core t)) with
  | none => simp [eq_comm]
  | some v => simp

/-! ## Writing -/

theorem render_eq_join (v : EngineVersion) :
    v.render = Text.join ['.']
      [Text.ofNat v.major.toNat, Text.ofNat v.minor.toNat, Text.ofNat v.patch.toNat] := by
  simp [render, Text.join]

theorem isDigit_of_mem_render {v : EngineVersion} {c : Char} (h : c ∈ v.render) :
    c = '.' ∨ Text.isDigit c = true := by
  rw [render_eq_join] at h
  rcases Text.mem_of_mem_join h with hpoint | ⟨component, hcomponent, hc⟩
  · exact .inl (List.mem_singleton.1 hpoint)
  · simp only [List.mem_cons, List.not_mem_nil, or_false] at hcomponent
    rcases hcomponent with rfl | rfl | rfl <;> exact .inr (Text.isDigit_of_mem_ofNat hc)

/-- what a version is written as, with or without a `v` in front, taken apart -/
def spellingOf (v : EngineVersion) (mark : Text) (hmark : mark = ['v'] ∨ mark = []) :
    Spelling (mark ++ v.render) where
  lead := []
  mark := mark
  components := [Text.ofNat v.major.toNat, Text.ofNat v.minor.toNat, Text.ofNat v.patch.toNat]
  cut := []
  trail := []
  text := by simp [render_eq_join]
  lead_blank := by simp [Text.Blank]
  trail_blank := by simp [Text.Blank]
  trimmed := by
    refine Text.trimmed_of_forall ?_
    intro c hc
    rw [← render_eq_join, List.append_nil, List.mem_append] at hc
    rcases hc with hc | hc
    · rcases hmark with rfl | rfl
      · obtain rfl := List.mem_singleton.1 hc
        decide
      · cases hc
    · rcases isDigit_of_mem_render hc with rfl | hdigit
      · decide
      · exact Text.isBlank_of_isDigit hdigit
  marked := by
    refine hmark.imp_right fun hnone => ⟨hnone, ?_⟩
    rw [← render_eq_join, List.append_nil]
    intro hfirst
    exact absurd (isDigit_of_mem_render (List.mem_of_mem_head? hfirst)) (by decide)
  nonempty := List.cons_ne_nil _ _
  plain := by
    intro component hcomponent c hc
    have hdigit : Text.isDigit c = true := by
      simp only [List.mem_cons, List.not_mem_nil, or_false] at hcomponent
      rcases hcomponent with rfl | rfl | rfl <;> exact Text.isDigit_of_mem_ofNat hc
    refine ⟨?_, ?_, ?_⟩ <;> rintro rfl <;> exact absurd hdigit (by decide)
  cuts := by simp

theorem parse_mark_render (v : EngineVersion) {mark : Text} (hmark : mark = ['v'] ∨ mark = []) :
    parse (mark ++ v.render) = .ok v := by
  rw [(spellingOf v mark hmark).parse_eq_ok_iff]
  exact ⟨Text.numeral_ofNat _, Text.numeral_ofNat _, Text.numeral_ofNat _⟩

theorem parse_render (v : EngineVersion) : parse v.render = .ok v := by
  have h : parse ([] ++ v.render) = .ok v := parse_mark_render v (.inr rfl)
  rwa [List.nil_append] at h

theorem parse_v_render (v : EngineVersion) : parse ('v' :: v.render) = .ok v := by
  have h : parse (['v'] ++ v.render) = .ok v := parse_mark_render v (.inl rfl)
  rwa [List.singleton_append] at h

theorem ofJson?_toJson (v : EngineVersion) : ofJson? v.toJson = some v := by
  rw [toJson, ofJson?, parse_render]
  rfl

/-! ## Order -/

/-- the numbers of a version, in the order in which they are compared -/
def triple (v : EngineVersion) : ℕ ×ₗ ℕ ×ₗ ℕ :=
  toLex (v.major.toNat, toLex (v.minor.toNat, v.patch.toNat))

theorem triple_inj {v w : EngineVersion} : v.triple = w.triple ↔ v = w := by
  obtain ⟨a, b, c⟩ := v
  obtain ⟨a', b', c'⟩ := w
  simp [triple, UInt32.toNat_inj]

theorem before_iff_triple_lt (v w : EngineVersion) : v.before w = true ↔ v.triple < w.triple := by
  simp [before, triple, Prod.Lex.toLex_lt_toLex, UInt32.lt_iff_toNat_lt, ← UInt32.toNat_inj]

/-! ## Versions as texts -/

/-- **Which texts are versions, and of which numbers.** Every text has one layout. It is read as the
version that the first three components give, where there are fewer with zeros, and refused as it
stands if they are no numbers of 32 bits. Two texts with the same first three components are read
alike. A version is read back from what it is written as, with or without a `v`, and from its JSON
value and text; and versions are in the lexicographic order of their numbers. -/
theorem parse_exact (t : Text) :
    (∃ s : Spelling t, ∀ s' : Spelling t, s'.components = s.components) ∧
    (∀ v, parse t = .ok v ↔ ∃ s : Spelling t, Numbered s.components v) ∧
    (∀ e, parse t = .error e ↔
      e = .invalidVersion t ∧ ¬∃ v, ∃ s : Spelling t, Numbered s.components v) ∧
    (∀ u (s : Spelling t) (s' : Spelling u), s.components.take 3 = s'.components.take 3 →
      (parse t).toOption = (parse u).toOption) ∧
    (∀ v : EngineVersion, parse v.render = .ok v ∧ parse ('v' :: v.render) = .ok v ∧
      ofJson? v.toJson = some v ∧ (Json.parse? v.toJson.render).bind ofJson? = some v) ∧
    ∀ v w : EngineVersion, (v.before w = true ↔ v.triple < w.triple) ∧
      (v = w ↔ v.triple = w.triple) := by
  obtain ⟨spelling⟩ := exists_spelling t
  have hok : ∀ v, parse t = .ok v ↔ ∃ s : Spelling t, Numbered s.components v := by
    intro v
    constructor
    · intro h
      exact ⟨spelling, spelling.parse_eq_ok_iff.1 h⟩
    · rintro ⟨s, hs⟩
      exact s.parse_eq_ok_iff.2 hs
  refine ⟨⟨spelling, ?_⟩, hok, ?_, ?_, ?_, ?_⟩
  · intro s
    rw [← s.splitOn_core, ← spelling.splitOn_core]
  · intro e
    rw [parse_error_iff, not_exists]
    simp only [← hok]
  · intro u s s' hsame
    have hparse : ∀ v, parse t = .ok v ↔ parse u = .ok v := by
      intro v
      rw [s.parse_eq_ok_iff, s'.parse_eq_ok_iff, numbered_congr hsame]
    refine Option.ext fun v => ?_
    have hoption : ∀ r : Except CacheError EngineVersion, r.toOption = some v ↔ r = .ok v := by
      intro r
      cases r <;> simp [Except.toOption]
    rw [hoption, hoption, hparse]
  · intro v
    have htext : Json.parse? v.toJson.render = some v.toJson := (Json.Exact.str _).parse?_render
    refine ⟨parse_render v, parse_v_render v, ofJson?_toJson v, ?_⟩
    rw [htext, Option.bind_some, ofJson?_toJson]
  · intro v w
    exact ⟨before_iff_triple_lt v w, triple_inj.symm⟩

/-- blanks, leading zeros and a missing component; what is behind the cut does not count -/
theorem parse_exact_padded :
    (∃ s : Spelling " v007.21-rc.1\n".toList, Numbered s.components ⟨7, 21, 0⟩) ∧
    ¬∃ v, ∃ s : Spelling "v7..1".toList, Numbered s.components v := by
  refine ⟨((parse_exact " v007.21-rc.1\n".toList).2.1 _).1 (by rfl), ?_⟩
  exact (((parse_exact "v7..1".toList).2.2.1 (.invalidVersion "v7..1".toList)).1 (by rfl)).2

end CodeCache.EngineVersion
