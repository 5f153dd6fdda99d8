/-
Normal extensions are a canonical form.

An extension may be written with its leading point or without it, and whatever takes one normalises it
by itself: options, a table of handlers, a loader. Main result, `normalize_canonical`.

- Which texts spell one extension (`Same`) is told by what is left of them without a leading point
  (`same_iff`). The point is optional in front of a text that has none, and nowhere else: of two
  leading points, neither can be left out.
- Every use of an extension takes the normal form of what is written (`Use.takes_iff`), or is refused
  as that is (`Use.refuses_iff`). So two uses agree exactly when the same extension is written, and
  normalising again what another use has taken changes nothing.
-/
import CodeCache.Loading.ModuleTable
import CodeCache.Proofs.Loader.Rendering
import CodeCache.Proofs.Text.Cutting

namespace CodeCache

/-! ## Spellings -/

namespace Extension

variable {t u rest : Text}

/-- what a text is without one leading point, whether it has one or not -/
inductive Unpointed : Text → Text → Prop where
  | point (rest : Text) : Unpointed ('.' :: rest) rest
  | none {t : Text} : '.' ∉ t.head? → Unpointed t t

/-- texts that are equal up to one leading point, in front of a text that has none -/
inductive Same : Text → Text → Prop where
  | refl (t : Text) : Same t t
  | point {t : Text} : '.' ∉ t.head? → Same t ('.' :: t)
  | unpoint {t : Text} : '.' ∉ t.head? → Same ('.' :: t) t

/-- a text that can be an extension: without a leading point, it is a part of a file name -/
def Usable (t : Text) : Prop := ∃ rest, Unpointed t rest ∧ IsFilePart rest

theorem bare_of_not_mem (h : '.' ∉ t.head?) : bare t = t := Text.dropped_of_not_mem h

/-- a text has a leading point in front of the rest, or is the rest -/
theorem spelled (t : Text) : t = '.' :: bare t ∨ '.' ∉ t.head? ∧ bare t = t :=
  Text.dropped_cases '.' t

theorem unpointed_iff : Unpointed t rest ↔ bare t = rest := by
  constructor
  · intro h
    cases h with
    | point => rfl
    | none h => exact bare_of_not_mem h
  · intro h
    rcases spelled t with hpoint | ⟨hnone, hbare⟩
    · rw [hpoint, h]
      exact .point rest
    · rw [← h, hbare]
      exact .none hnone

theorem usable_iff : Usable t ↔ IsFilePart (bare t) := by
  simp only [Usable, unpointed_iff, exists_eq_left']

instance (t : Text) : Decidable (Usable t) := decidable_of_iff _ usable_iff.symm

/-- two texts spell one extension if the same is left of them -/
theorem same_iff : Same t u ↔ bare t = bare u := by
  constructor
  · intro h
    cases h with
    | refl => rfl
    | point h => exact bare_of_not_mem h
    | unpoint h => exact (bare_of_not_mem h).symm
  · intro h
    rcases spelled t with ht | ⟨ht, htbare⟩
    · rcases spelled u with hu | ⟨hu, hubare⟩
      · rw [ht, hu, h]
        exact .refl _
      · rw [ht, h, hubare]
        exact .unpoint hu
    · rcases spelled u with hu | ⟨hu, hubare⟩
      · rw [hu, ← h, htbare]
        exact .point ht
      · rw [← htbare, ← hubare, h]
        exact .refl _

instance (t u : Text) : Decidable (Same t u) := decidable_of_iff _ same_iff.symm

theorem normalize_eq_error_iff {x : OptionsError} :
    normalize t = .error x ↔ ¬Usable t ∧ x = .invalidExtension t := by
  simp only [normalize, separated_iff, usable_iff]
  split_ifs with h
  · simp only [h, not_true_eq_false, false_and]
  · simp only [h, not_false_eq_true, true_and, Except.error.injEq, eq_comm]

theorem exists_normal_iff : (∃ extension, normalize t = .ok extension) ↔ Usable t := by
  simp only [normalize_eq_ok_iff, usable_iff, exists_and_left, exists_eq, and_true]

/-- normal forms are equal for spellings of one extension only -/
theorem normal_eq_iff {extension extension' : Text} (ht : normalize t = .ok extension)
    (hu : normalize u = .ok extension') : extension = extension' ↔ Same t u := by
  obtain ⟨-, rfl⟩ := normalize_eq_ok_iff.1 ht
  obtain ⟨-, rfl⟩ := normalize_eq_ok_iff.1 hu
  rw [same_iff, List.cons.injEq, eq_self_iff_true, true_and]

end Extension

/-! ## Uses -/

/-- the extension that a script registers: its literal stands in the first hole -/
def Loader.Declares (script extension : Text) : Prop :=
  ∃ rest, script = Loader.opening ++ Json.renderString extension ++ Loader.middle ++ rest

theorem Loader.Declares.unique {script extension extension' : Text}
    (h : Declares script extension) (h' : Declares script extension') : extension = extension' := by
  obtain ⟨rest, rfl⟩ := h
  obtain ⟨rest', hscript⟩ := h'
  simp only [List.append_assoc, List.append_cancel_left_eq] at hscript
  exact (Json.renderString_append_inj hscript).1

/-- a loader declares the normal form of the extension it is rendered for, and no other -/
theorem Loader.render_declares_iff {given extension : Text} {layouts : LayoutTable} :
    (∃ script, render given layouts = .ok script ∧ Declares script extension) ↔
      Extension.normalize given = .ok extension := by
  cases hnormal : Extension.normalize given with
  | error x => simp [render_of_error hnormal]
  | ok normal =>
    have hdeclares : Declares (opening ++ Json.renderString normal ++ middle ++
        layouts.toLoaderJson.render ++ closing) normal :=
      ⟨layouts.toLoaderJson.render ++ closing, by simp only [List.append_assoc]⟩
    simp only [render_of_normalize hnormal, Except.ok.injEq, exists_eq_left']
    constructor
    · intro h
      exact hdeclares.unique h
    · rintro rfl
      exact hdeclares

namespace ModuleTable

variable {η : Type} {table : ModuleTable η} {handler : η} {given extension : Text}

theorem setHandler_inj {extension' : Text}
    (h : table.setHandler extension handler = table.setHandler extension' handler) :
    extension = extension' := by
  have hfirst := congrArg (fun table => table.handlers.head?) h
  simpa [setHandler] using hfirst

/-- a handler is put at the normal form of the extension it is registered for -/
theorem register_eq_ok_iff :
    table.register given handler = .ok (table.setHandler extension handler) ↔
      Extension.normalize given = .ok extension := by
  rw [register]
  cases Extension.normalize given with
  | error x => simp [Except.map]
  | ok normal =>
    simp only [Except.map, Except.ok.injEq]
    constructor
    · intro h
      exact setHandler_inj h
    · intro h
      rw [h]

end ModuleTable

namespace Extension

/-- calls that are given an extension, with what else they are given -/
inductive Use (η : Type) where
  /-- a draft is resolved -/
  | resolve (draft : Draft)
  /-- a handler is registered in a table -/
  | register (table : ModuleTable η) (extension : Text) (handler : η)
  /-- a loader is rendered -/
  | render (extension : Text) (layouts : LayoutTable)

namespace Use

variable {η : Type}

/-- the extension as it is written, or the one by default -/
def written : Use η → Text
  | .resolve draft => draft.extension.getD standard
  | .register _ extension _ => extension
  | .render extension _ => extension

/-- nothing but the extension can keep the call from succeeding -/
def Ready : Use η → Prop
  | .resolve draft =>
    (Path.fileName? draft.filename).isSome ∧
      IsFilePart (draft.loaderName.getD Options.standardLoaderName)
  | .register .. => True
  | .render .. => True

/-- the call succeeds, and this is the extension in what it gives -/
def Takes : Use η → Text → Prop
  | .resolve draft, extension => ∃ o, draft.resolve = .ok o ∧ o.extension = extension
  | .register table given handler, extension =>
    table.register given handler = .ok (table.setHandler extension handler)
  | .render given layouts, extension =>
    ∃ script, Loader.render given layouts = .ok script ∧ Loader.Declares script extension

/-- the call fails with this error -/
def Refuses : Use η → OptionsError → Prop
  | .resolve draft, x => draft.resolve = .error x
  | .register table given handler, x => table.register given handler = .error x
  | .render given layouts, x => Loader.render given layouts = .error x

/-- **Every use takes the normal form** of what is written, if nothing else is wrong -/
theorem takes_iff (use : Use η) (extension : Text) :
    use.Takes extension ↔ use.Ready ∧ normalize use.written = .ok extension := by
  cases use with
  | resolve draft =>
    simp only [Takes, Ready, written, Draft.resolve_eq_ok_iff, normalize_eq_ok_iff]
    constructor
    · rintro ⟨o, ⟨husable, rfl⟩, rfl⟩
      exact ⟨⟨husable.file, husable.loaderName⟩, husable.extension, rfl⟩
    · rintro ⟨⟨hfile, hname⟩, hextension, rfl⟩
      exact ⟨draft.filled, ⟨⟨hfile, hextension, hname⟩, rfl⟩, rfl⟩
  | register table given handler =>
    simpa only [Takes, Ready, written, true_and] using ModuleTable.register_eq_ok_iff
  | render given layouts =>
    simpa only [Takes, Ready, written, true_and] using Loader.render_declares_iff

/-- **Every use is refused as the normal form is**, if nothing else is wrong -/
theorem refuses_iff {use : Use η} (hready : use.Ready) (x : OptionsError) :
    use.Refuses x ↔ normalize use.written = .error x := by
  cases use with
  | resolve draft =>
    obtain ⟨hfile, hname⟩ := hready
    have hnamed : (Path.fileName? draft.filename).isNone = false :=
      Option.isNone_eq_false_iff.2 hfile
    have hloader := Draft.checkLoaderName_eq_ok_iff.2 ⟨hname, rfl⟩
    simp only [Refuses, written, Draft.resolve, hnamed, hloader, Bool.false_eq_true, if_false]
    cases normalize (draft.extension.getD standard) <;> simp
  | register table given handler =>
    simp only [Refuses, written, ModuleTable.register]
    cases normalize given <;> simp [Except.map]
  | render given layouts =>
    simp only [Refuses, written]
    cases hnormal : normalize given with
    | error x' => rw [Loader.render_of_error hnormal]
    | ok normal => simp [Loader.render_of_normalize hnormal]

end Use

/-- **Normal extensions are a canonical form.** A text is normalised exactly when, without one leading
point, it is not empty and has no slash or backslash. The normal form starts with a point and is its
own normal form, and two texts have the same one exactly when they are equal up to one leading point,
in front of a text that has none.

Resolving options, registering a handler and rendering a loader each take the normal form of the
extension they are given, and refuse a text that has none with an error that names it as it is
written. So any two of them agree exactly when they are given the same extension, also where one is
given what the other has taken. -/
theorem normalize_canonical {η : Type} :
    (∀ t, (∃ extension, normalize t = .ok extension) ↔ Usable t) ∧
    (∀ t extension, normalize t = .ok extension →
      '.' ∈ extension.head? ∧ normalize extension = .ok extension) ∧
    (∀ t u, Usable t → Usable u → (normalize t = normalize u ↔ Same t u)) ∧
    (∀ (use : Use η) extension,
      use.Takes extension ↔ use.Ready ∧ normalize use.written = .ok extension) ∧
    (∀ use : Use η, use.Ready → ∀ x,
      use.Refuses x ↔ ¬Usable use.written ∧ x = .invalidExtension use.written) ∧
    (∀ (use other : Use η) extension extension', use.Takes extension → other.Takes extension' →
      (extension = extension' ↔ Same use.written other.written)) ∧
    ∀ (use other : Use η) extension, use.Takes extension → other.Ready →
      other.written = extension → other.Takes extension := by
  refine ⟨fun t => exists_normal_iff, ?_, ?_, Use.takes_iff, ?_, ?_, ?_⟩
  · intro t extension h
    obtain ⟨hpoint, -, hagain⟩ := normalize_spec h
    exact ⟨by rw [hpoint]; rfl, hagain⟩
  · intro t u ht hu
    obtain ⟨extension, hextension⟩ := exists_normal_iff.2 ht
    obtain ⟨extension', hextension'⟩ := exists_normal_iff.2 hu
    rw [hextension, hextension', Except.ok.injEq]
    exact normal_eq_iff hextension hextension'
  · intro use hready x
    rw [Use.refuses_iff hready, normalize_eq_error_iff]
  · intro use other extension extension' h h'
    exact normal_eq_iff ((use.takes_iff _).1 h).2 ((other.takes_iff _).1 h').2
  · intro use other extension h hready hwritten
    obtain ⟨-, -, hagain⟩ := normalize_spec ((use.takes_iff _).1 h).2
    exact (other.takes_iff _).2 ⟨hready, by rw [hwritten, hagain]⟩

/-- a draft that names its extension without a point -/
def kilnDraft : Draft := { Draft.empty with filename := "app.js", extension := some "kiln" }

/-- one leading point may be left out, and the first of two may not; a point alone is refused -/
theorem normalize_canonical_points :
    let table : ModuleTable Unit := .empty
    Usable "kiln" ∧ Usable ".kiln" ∧ Usable "..kiln" ∧
    normalize "kiln" = normalize ".kiln" ∧ normalize ".kiln" ≠ normalize "..kiln" ∧
    normalize "..kiln" = .ok "..kiln" ∧
    (Use.resolve kilnDraft : Use Unit).Takes ".kiln" ∧
    (Use.render ".kiln" .builtIn : Use Unit).Takes ".kiln" ∧
    ¬(Use.register table "..kiln" ()).Takes ".kiln" ∧
    (Use.register table "." ()).Ready ∧
    (Use.register table "." ()).Refuses (.invalidExtension ".") := by
  intro table
  have hcanonical := normalize_canonical (η := Unit)
  obtain ⟨-, hnormal, heq, htakes, hrefuses, hagree, hagain⟩ := hcanonical
  have hone : normalize "kiln" = normalize ".kiln" :=
    (heq "kiln" ".kiln" (by decide) (by decide)).2 (by decide)
  have htwo : normalize ".kiln" ≠ normalize "..kiln" := by
    intro h
    exact absurd ((heq ".kiln" "..kiln" (by decide) (by decide)).1 h) (by decide)
  have hoptions : (Use.resolve kilnDraft : Use Unit).Takes ".kiln" :=
    (htakes _ _).2 ⟨⟨by decide, by decide⟩, by decide⟩
  have hloader : (Use.render ".kiln" .builtIn : Use Unit).Takes ".kiln" :=
    hagain (.resolve kilnDraft) (.render ".kiln" .builtIn) ".kiln" hoptions trivial rfl
  have hother : ¬(Use.register table "..kiln" ()).Takes ".kiln" := by
    intro h
    have hkiln := (hagree (.resolve kilnDraft) (.register table "..kiln" ()) _ _ hoptions h).1 rfl
    exact absurd hkiln (by decide)
  exact ⟨by decide, by decide, by decide, hone, htwo, (hnormal "..kiln" "..kiln" (by decide)).2,
    hoptions, hloader, hother, trivial,
    (hrefuses (.register table "." ()) trivial _).2 ⟨by decide, rfl⟩⟩

end Extension

end CodeCache
