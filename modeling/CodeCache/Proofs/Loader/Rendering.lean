/-
Rendering the loader script fills its two holes and changes nothing else.

Main result, `render_fills`. The script is the template with the literal of the extension in the
first hole and the text of the layouts in the second; both are read back, no mark is left, and the
script tells which extension and which layouts it was made for.

The extension is put in first, by the user's choice, and the mark of the second hole is looked for in
the result. It cannot be found too early: it starts and ends with a slash, a normal extension has
none (`slash_not_mem_escaped`), and it has no quote, so it does not reach into the literal or over it
(`infix_around_iff`). The layouts are numbers, brackets and names, without slashes as well
(`slash_not_mem_toLoaderJson`).

A script is taken apart from its front: a literal ends at its own closing quote
(`renderString_append_inj`), and what is left is the text of the layouts.
-/
import CodeCache.Loader.Script
import CodeCache.Proofs.Compile.Outputs
import CodeCache.Proofs.Json.Values
import CodeCache.Proofs.Loader.Lookup
import CodeCache.Proofs.Text.Marks

namespace CodeCache

/-! ## Literals -/

namespace Json

theorem parse?_renderString (t : Text) : parse? (renderString t) = some (.str t) :=
  (Exact.str t).parse?_render

/-- a literal ends where its quote closes, whatever comes next -/
theorem renderString_append_inj {t t' rest rest' : Text}
    (h : renderString t ++ rest = renderString t' ++ rest') : t = t' ∧ rest = rest' := by
  have hbody : t.flatMap escapeChar ++ '"' :: rest = t'.flatMap escapeChar ++ '"' :: rest' := by
    simpa [renderString] using h
  have hread := readPieces?_escaped t rest
  rw [hbody, readPieces?_escaped t' rest', Option.some.injEq, Prod.mk.injEq] at hread
  obtain ⟨hpieces, hrest⟩ := hread
  have htext := piecesText?_map t
  rw [← hpieces, piecesText?_map, Option.some.injEq] at htext
  exact ⟨htext.symm, hrest.symm⟩

/-! ## Texts without slashes -/

theorem slash_not_mem_escaped {t : Text} (h : '/' ∉ t) : '/' ∉ t.flatMap escapeChar := by
  rw [List.mem_flatMap]
  rintro ⟨c, hc, hslash⟩
  rcases mem_escapeChar hslash with ⟨rfl, -⟩ | hescape
  · exact h hc
  · exact absurd hescape (by decide)

theorem slash_not_mem_renderString {t : Text} (h : '/' ∉ t) : '/' ∉ renderString t := by
  simpa [renderString] using slash_not_mem_escaped h

theorem slash_not_mem_nat (n : Nat) : '/' ∉ render (.nat n) := by
  obtain hint : render (.nat n) = Text.ofNat n := by
    rw [nat, render, renderInt, if_neg (by simp)]
    rfl
  rw [hint]
  intro h
  exact absurd (Text.isDigit_of_mem_ofNat h) (by decide)

theorem slash_not_mem_renderItems {items : List Json} (h : ∀ item ∈ items, '/' ∉ render item) :
    '/' ∉ renderItems items := by
  intro hslash
  rcases mem_renderItems hslash with hcomma | ⟨item, hitem, hslash⟩
  · exact absurd hcomma (by decide)
  · exact h item hitem hslash

theorem slash_not_mem_renderMembers {members : List (Text × Json)}
    (h : ∀ m ∈ members, '/' ∉ m.1 ∧ '/' ∉ render m.2) : '/' ∉ renderMembers members := by
  intro hslash
  rcases mem_renderMembers hslash with hcomma | ⟨m, hm, hslash | hcolon | hslash⟩
  · exact absurd hcomma (by decide)
  · exact slash_not_mem_renderString (h m hm).1 hslash
  · exact absurd hcolon (by decide)
  · exact (h m hm).2 hslash

theorem slash_not_mem_arr {items : List Json} (h : ∀ item ∈ items, '/' ∉ render item) :
    '/' ∉ render (.arr items) := by
  simpa [render] using slash_not_mem_renderItems h

theorem slash_not_mem_obj {members : List (Text × Json)}
    (h : ∀ m ∈ members, '/' ∉ m.1 ∧ '/' ∉ render m.2) : '/' ∉ render (.obj members) := by
  simpa [render] using slash_not_mem_renderMembers h

end Json

/-! ## The text of a table -/

theorem EngineVersion.slash_not_mem_orNull (v : Option EngineVersion) :
    '/' ∉ Json.render (.orNull (v.map EngineVersion.toTriple)) := by
  cases v with
  | none => decide
  | some v =>
    refine Json.slash_not_mem_arr ?_
    intro item hitem
    simp only [List.mem_cons, List.not_mem_nil, or_false] at hitem
    rcases hitem with rfl | rfl | rfl <;> exact Json.slash_not_mem_nat _

theorem ByteSpan.slash_not_mem_toJson (s : ByteSpan) : '/' ∉ s.toJson.render := by
  refine Json.slash_not_mem_arr ?_
  intro item hitem
  simp only [List.mem_cons, List.not_mem_nil, or_false] at hitem
  rcases hitem with rfl | rfl <;> exact Json.slash_not_mem_nat _

theorem Layout.slash_not_mem_toLoaderJson (l : Layout) : '/' ∉ l.toLoaderJson.render := by
  have hspans : '/' ∉ Json.render (.arr (l.spans.map ByteSpan.toJson)) := by
    refine Json.slash_not_mem_arr ?_
    intro item hitem
    obtain ⟨s, -, rfl⟩ := List.mem_map.1 hitem
    exact s.slash_not_mem_toJson
  have hkeys : ∀ key ∈ ["below", "min", "spans"], '/' ∉ key.toList := by decide
  rw [toLoaderJson_eq]
  refine Json.slash_not_mem_obj ?_
  intro m hm
  simp only [List.mem_cons, List.not_mem_nil, or_false] at hm
  rcases hm with rfl | rfl | rfl
  · exact ⟨hkeys "below" (by simp), EngineVersion.slash_not_mem_orNull _⟩
  · exact ⟨hkeys "min" (by simp), EngineVersion.slash_not_mem_orNull _⟩
  · exact ⟨hkeys "spans" (by simp), hspans⟩

theorem LayoutTable.slash_not_mem_items (table : LayoutTable) :
    '/' ∉ Json.renderItems (table.entries.map Layout.toLoaderJson) := by
  refine Json.slash_not_mem_renderItems ?_
  intro item hitem
  obtain ⟨l, -, rfl⟩ := List.mem_map.1 hitem
  exact l.slash_not_mem_toLoaderJson

theorem EngineVersion.toTriple_inj {v w : EngineVersion} (h : v.toTriple = w.toTriple) : v = w := by
  obtain ⟨a, b, c⟩ := v
  obtain ⟨a', b', c'⟩ := w
  simpa [toTriple, Json.nat, UInt32.toNat_inj] using h

theorem EngineVersion.orNull_inj {v w : Option EngineVersion}
    (h : Json.orNull (v.map toTriple) = Json.orNull (w.map toTriple)) : v = w := by
  cases v with
  | none =>
    cases w with
    | none => rfl
    | some w => cases h
  | some v =>
    cases w with
    | none => cases h
    | some w => rw [toTriple_inj h]

theorem ByteSpan.toJson_inj {s s' : ByteSpan} (h : s.toJson = s'.toJson) : s = s' := by
  obtain ⟨start, stop, _, _⟩ := s
  obtain ⟨start', stop', _, _⟩ := s'
  simpa [toJson, Json.nat] using h

theorem Layout.toLoaderJson_inj {l l' : Layout} (h : l.toLoaderJson = l'.toLoaderJson) : l = l' := by
  obtain ⟨⟨min, below⟩, spans⟩ := l
  obtain ⟨⟨min', below'⟩, spans'⟩ := l'
  rw [toLoaderJson_eq, toLoaderJson_eq] at h
  simp only [Json.obj.injEq, List.cons.injEq, Prod.mk.injEq, true_and, and_true,
    Json.arr.injEq] at h
  obtain ⟨hbelow, hmin, hspans⟩ := h
  have hsame := List.map_injective_iff.2 (fun _ _ => ByteSpan.toJson_inj) hspans
  rw [EngineVersion.orNull_inj hmin, EngineVersion.orNull_inj hbelow, hsame]

theorem LayoutTable.toLoaderJson_inj {table table' : LayoutTable}
    (h : table.toLoaderJson = table'.toLoaderJson) : table = table' := by
  obtain ⟨entries⟩ := table
  obtain ⟨entries'⟩ := table'
  have hentries : entries = entries' :=
    List.map_injective_iff.2 (fun _ _ => Layout.toLoaderJson_inj) (Json.arr.inj h)
  rw [hentries]

namespace Loader

/-! ## The template -/

/-- up to the first hole -/
def opening : Text := Text.ofLines (templateLines.take 12) ++ "const EXTNAME = "

/-- between the holes -/
def middle : Text := ";\nconst LAYOUTS = "

/-- behind the second hole -/
def closing : Text := ";\n" ++ Text.ofLines (templateLines.drop 14)

theorem template_eq :
    template = opening ++ extensionMark ++ middle ++ layoutsMark ++ closing := by
  have hlines : templateLines = templateLines.take 12 ++
      ("const EXTNAME = /*__KILN_EXTNAME__*/;" :: "const LAYOUTS = /*__KILN_LAYOUTS__*/;" ::
        templateLines.drop 14) := rfl
  have hextension : "const EXTNAME = /*__KILN_EXTNAME__*/;".toList ++ ['\n'] =
      "const EXTNAME = ".toList ++ extensionMark ++ ";\n".toList := rfl
  have hlayouts : "const LAYOUTS = /*__KILN_LAYOUTS__*/;".toList ++ ['\n'] =
      "const LAYOUTS = ".toList ++ layoutsMark ++ ";\n".toList := rfl
  have hmiddle : middle = ";\n".toList ++ "const LAYOUTS = ".toList := rfl
  rw [template, hlines, Text.ofLines, List.flatMap_append, List.flatMap_cons, List.flatMap_cons,
    hextension, hlayouts, opening, hmiddle, closing]
  simp only [Text.ofLines, List.append_assoc]

/-- both marks have a letter that nothing else in the template has -/
theorem letter_mem_marks : ∀ mark ∈ [extensionMark, layoutsMark], 'K' ∈ mark := by decide

theorem letter_not_mem_opening : 'K' ∉ opening := by
  have hlines : 'K' ∉ Text.ofLines (templateLines.take 12) := by
    simp only [templateLines, List.take_succ_cons, List.take_zero]
    repeat refine Text.not_mem_ofLines_cons (by decide) ?_
    exact List.not_mem_nil
  rw [opening, List.mem_append, not_or]
  exact ⟨hlines, by decide⟩

theorem letter_not_mem_middle : 'K' ∉ middle := by decide

theorem letter_not_mem_closing : 'K' ∉ closing := by
  have hlines : 'K' ∉ Text.ofLines (templateLines.drop 14) := by
    simp only [templateLines, List.drop_succ_cons, List.drop_zero]
    repeat refine Text.not_mem_ofLines_cons (by decide) ?_
    exact List.not_mem_nil
  rw [closing, List.mem_append, not_or]
  exact ⟨by decide, hlines⟩

/-- what the fillings are kept apart by -/
theorem slash_mem_marks : ∀ mark ∈ [extensionMark, layoutsMark],
    '/' ∈ mark ∧ '"' ∉ mark ∧ '[' ∉ mark ∧ ']' ∉ mark ∧ ' ' ∉ mark := by decide

/-! ## The script -/

variable {mark : Text}

/-- the literal of an extension brings no mark with it -/
theorem not_infix_literal (hmark : mark ∈ [extensionMark, layoutsMark]) {extension : Text}
    (h : '/' ∉ extension) :
    ¬mark <:+: opening ++ Json.renderString extension ++ middle := by
  obtain ⟨hslash, hquote, -⟩ := slash_mem_marks mark hmark
  have hletter := letter_mem_marks mark hmark
  rw [Json.renderString, Text.infix_around_iff hquote hquote]
  rintro (hopening | hbody | hmiddle)
  · exact Text.not_infix_of_mem hletter letter_not_mem_opening hopening
  · exact Text.not_infix_of_mem hslash (Json.slash_not_mem_escaped h) hbody
  · exact Text.not_infix_of_mem hletter letter_not_mem_middle hmiddle

/-- neither do the layouts -/
theorem not_infix_script (hmark : mark ∈ [extensionMark, layoutsMark]) {extension : Text}
    (h : '/' ∉ extension) (table : LayoutTable) :
    ¬mark <:+: opening ++ Json.renderString extension ++ middle ++ table.toLoaderJson.render ++
      closing := by
  obtain ⟨hslash, -, hbracket, hbracket', -⟩ := slash_mem_marks mark hmark
  have hletter := letter_mem_marks mark hmark
  rw [LayoutTable.toLoaderJson, Json.render, Text.infix_around_iff hbracket hbracket']
  rintro (hfront | hitems | hclosing)
  · exact not_infix_literal hmark h hfront
  · exact Text.not_infix_of_mem hslash table.slash_not_mem_items hitems
  · exact Text.not_infix_of_mem hletter letter_not_mem_closing hclosing

/-- both replacements find their holes -/
theorem render_of_normalize {extension normal : Text}
    (h : Extension.normalize extension = .ok normal) (table : LayoutTable) :
    render extension table = .ok (opening ++ Json.renderString normal ++ middle ++
      table.toLoaderJson.render ++ closing) := by
  obtain ⟨rfl, ⟨-, hslash⟩, -⟩ := Extension.normalize_spec h
  have hnormal : '/' ∉ '.' :: Extension.bare extension := by simpa using hslash
  have hlast : opening.getLast? = some ' ' := by
    rw [opening, List.getLast?_append_of_ne_nil _ (by decide)]
    rfl
  have hlast' : (opening ++ Json.renderString ('.' :: Extension.bare extension) ++
      middle).getLast? = some ' ' := by
    rw [List.getLast?_append_of_ne_nil _ (by decide)]
    rfl
  have hextension : Text.replaceFirst extensionMark
      (Json.renderString ('.' :: Extension.bare extension)) template =
        opening ++ Json.renderString ('.' :: Extension.bare extension) ++
          (middle ++ layoutsMark ++ closing) := by
    rw [template_eq, List.append_assoc _ middle, List.append_assoc _ (middle ++ layoutsMark)]
    exact Text.replaceFirst_behind (by decide) hlast (by decide)
      (Text.not_infix_of_mem (letter_mem_marks _ (by simp)) letter_not_mem_opening) _ _
  have hfree : ¬layoutsMark <:+: opening ++ Json.renderString ('.' :: Extension.bare extension) ++
      middle := not_infix_literal (by simp) hnormal
  have hlayouts := Text.replaceFirst_behind (by decide) hlast' (by decide) hfree
    table.toLoaderJson.render closing
  rw [render, h]
  dsimp only
  rw [hextension, ← hlayouts]
  simp only [List.append_assoc]

theorem render_of_error {extension : Text} {e : OptionsError}
    (h : Extension.normalize extension = .error e) (table : LayoutTable) :
    render extension table = .error e := by
  rw [render, h]

/-- the literal and the layouts are found again in the script -/
theorem script_inj {normal normal' : Text} {table table' : LayoutTable}
    (haddressable : ∀ l ∈ table.entries, l.Addressable)
    (haddressable' : ∀ l ∈ table'.entries, l.Addressable)
    (h : opening ++ Json.renderString normal ++ middle ++ table.toLoaderJson.render ++ closing =
      opening ++ Json.renderString normal' ++ middle ++ table'.toLoaderJson.render ++ closing) :
    normal = normal' ∧ table = table' := by
  simp only [List.append_assoc, List.append_cancel_left_eq] at h
  obtain ⟨hnormal, hrest⟩ := Json.renderString_append_inj h
  have hlayouts : table.toLoaderJson.render = table'.toLoaderJson.render :=
    List.append_cancel_right (List.append_cancel_left hrest)
  have hparse := LayoutTable.parse?_toLoaderJson haddressable
  rw [hlayouts, LayoutTable.parse?_toLoaderJson haddressable', Option.some.injEq] at hparse
  exact ⟨hnormal, (LayoutTable.toLoaderJson_inj hparse).symm⟩

/-- **Rendering fills the two holes exactly.** The template is three fixed pieces around two marks.
Rendering fails as the extension does when it is normalised. Otherwise the script is the three pieces
around a literal, which is read back as the normal extension, and the text of the layouts, which is
read back as the layouts; no mark is left in it; and it is the script of those calls only whose
normal extension and layouts are the same. -/
theorem render_fills (extension : Text) (table : LayoutTable)
    (haddressable : ∀ l ∈ table.entries, l.Addressable) :
    template = opening ++ extensionMark ++ middle ++ layoutsMark ++ closing ∧
    (∀ e, render extension table = .error e ↔ Extension.normalize extension = .error e) ∧
    ∀ normal, Extension.normalize extension = .ok normal →
      ∃ literal layouts,
        let script := opening ++ literal ++ middle ++ layouts ++ closing
        render extension table = .ok script ∧
        (∃ body, literal = '"' :: body ++ ['"']) ∧
        Json.parse? literal = some (.str normal) ∧
        Json.parse? layouts = some table.toLoaderJson ∧
        Text.contains extensionMark script = false ∧
        Text.contains layoutsMark script = false ∧
        ∀ extension' table', (∀ l ∈ table'.entries, l.Addressable) →
          (render extension' table' = .ok script ↔
            Extension.normalize extension' = .ok normal ∧ table' = table) := by
  refine ⟨template_eq, ?_, ?_⟩
  · intro e
    cases hnormal : Extension.normalize extension with
    | error e' => rw [render_of_error hnormal, Except.error.injEq]
    | ok normal => simp [render_of_normalize hnormal]
  · intro normal hnormal
    obtain ⟨hpoint, ⟨-, hslash⟩, -⟩ := Extension.normalize_spec hnormal
    have hfree : '/' ∉ normal := by simpa [hpoint] using hslash
    refine ⟨Json.renderString normal, table.toLoaderJson.render, render_of_normalize hnormal table,
      ⟨_, rfl⟩, Json.parse?_renderString normal, LayoutTable.parse?_toLoaderJson haddressable,
      Text.contains_eq_false_iff.2 (not_infix_script (by simp) hfree table),
      Text.contains_eq_false_iff.2 (not_infix_script (by simp) hfree table), ?_⟩
    intro extension' table' haddressable'
    constructor
    · intro hrender
      cases hnormal' : Extension.normalize extension' with
      | error e =>
        rw [render_of_error hnormal'] at hrender
        cases hrender
      | ok normal' =>
        rw [render_of_normalize hnormal', Except.ok.injEq] at hrender
        obtain ⟨rfl, rfl⟩ := script_inj haddressable' haddressable hrender
        exact ⟨rfl, rfl⟩
    · rintro ⟨hnormal', rfl⟩
      exact render_of_normalize hnormal' table'

/-- an extension that spells the second mark as far as it can, with a quote and a line end -/
def markLike : Text := "*__KILN_LAYOUTS__*\"\n"

/-- it is put into its hole as it is; it may be given with its point, and not with a slash -/
theorem render_fills_markLike :
    ∃ script, render markLike LayoutTable.builtIn = .ok script ∧
      Text.contains layoutsMark script = false ∧
      render ('.' :: markLike) LayoutTable.builtIn = .ok script ∧
      render ('/' :: markLike) LayoutTable.builtIn = .error (.invalidExtension ('/' :: markLike)) ∧
      render markLike ⟨[]⟩ ≠ .ok script := by
  have haddressable : ∀ l ∈ LayoutTable.builtIn.entries, l.Addressable := by decide
  obtain ⟨-, -, hfill⟩ := render_fills markLike LayoutTable.builtIn haddressable
  obtain ⟨literal, layouts, hrender, -, -, -, -, hmark, honly⟩ := hfill ('.' :: markLike) rfl
  have hslash := (render_fills ('/' :: markLike) LayoutTable.builtIn haddressable).2.1
    (.invalidExtension ('/' :: markLike))
  refine ⟨_, hrender, hmark, (honly _ _ haddressable).2 ⟨rfl, rfl⟩, hslash.2 rfl, ?_⟩
  intro hempty
  have htable := ((honly markLike ⟨[]⟩ (by simp)).1 hempty).2
  exact absurd htable (by decide)

end Loader

end CodeCache
