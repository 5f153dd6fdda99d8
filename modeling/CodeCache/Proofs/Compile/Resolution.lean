/-
Which drafts resolve, and to what.

Each of the three checks looks at one part of a draft, so together they ask for `Draft.Usable` in
whatever order they run; what is filled in does not depend on them (`Draft.filled`).

Main result, `Draft.resolve_eq_ok_iff`.
-/
import Mathlib.Tactic
import CodeCache.Compile.Options

namespace CodeCache

/-- a text that stays within one file name: there is something, and no slash or backslash in it -/
def IsFilePart (t : Text) : Prop := t ≠ [] ∧ ∀ c ∈ t, c ≠ '/' ∧ c ≠ '\\'

instance (t : Text) : Decidable (IsFilePart t) :=
  haveI := List.decidableBAll (fun c => c ≠ '/' ∧ c ≠ '\\') t
  inferInstanceAs (Decidable (t ≠ [] ∧ ∀ c ∈ t, c ≠ '/' ∧ c ≠ '\\'))

/-- what both checks refuse is that a text is no part of a file name -/
theorem separated_iff (t : Text) :
    (t.isEmpty || t.any Extension.isSeparator) = true ↔ ¬IsFilePart t := by
  simp only [IsFilePart, Extension.isSeparator, Bool.or_eq_true, List.isEmpty_iff, List.any_eq_true,
    beq_iff_eq, not_and_or, not_not, not_forall, exists_prop]

theorem Extension.normalize_eq_ok_iff {t extension : Text} :
    normalize t = .ok extension ↔ IsFilePart (bare t) ∧ extension = '.' :: bare t := by
  simp only [normalize, separated_iff]
  split_ifs with h
  · simp only [h, true_and, Except.ok.injEq, eq_comm]
  · simp only [h, false_and]

namespace Draft

theorem checkLoaderName_eq_ok_iff {name checked : Text} :
    checkLoaderName name = .ok checked ↔ IsFilePart name ∧ checked = name := by
  simp only [checkLoaderName, separated_iff]
  split_ifs with h
  · simp only [h, true_and, Except.ok.injEq, eq_comm]
  · simp only [h, false_and]

/-- a draft names a file, and what it adds to names stays within them -/
structure Usable (d : Draft) : Prop where
  file : (Path.fileName? d.filename).isSome
  extension : IsFilePart (Extension.bare (d.extension.getD Extension.standard))
  loaderName : IsFilePart (d.loaderName.getD Options.standardLoaderName)

/-- the options of a draft, with the defaults for what it leaves out -/
def filled (d : Draft) : Options :=
  ⟨d.filename, d.output.getD (Path.directory d.filename), d.asModule, d.electron, d.electronPath,
    d.createLoader, d.loaderName.getD Options.standardLoaderName,
    '.' :: Extension.bare (d.extension.getD Extension.standard)⟩

/-- **A draft resolves exactly when it is usable**, and then to itself with the defaults. -/
theorem resolve_eq_ok_iff {d : Draft} {o : Options} :
    d.resolve = .ok o ↔ d.Usable ∧ o = d.filled := by
  constructor
  · intro h
    unfold resolve at h
    split_ifs at h with hfile
    split at h
    · cases h
    · next extension hext =>
      split at h
      · cases h
      · next loaderName hloader =>
        cases h
        obtain ⟨hextension, rfl⟩ := Extension.normalize_eq_ok_iff.1 hext
        obtain ⟨hname, rfl⟩ := checkLoaderName_eq_ok_iff.1 hloader
        have hnamed : (Path.fileName? d.filename).isSome := by
          rwa [← Option.not_isSome, Bool.not_eq_true', Bool.not_eq_false] at hfile
        exact ⟨⟨hnamed, hextension, hname⟩, rfl⟩
  · rintro ⟨husable, rfl⟩
    have hext := Extension.normalize_eq_ok_iff.2 ⟨husable.extension, rfl⟩
    have hloader := checkLoaderName_eq_ok_iff.2 ⟨husable.loaderName, rfl⟩
    have hfile : (Path.fileName? d.filename).isNone = false :=
      Option.isNone_eq_false_iff.2 husable.file
    simp only [resolve, hfile, hext, hloader, Bool.false_eq_true, if_false, filled]

theorem resolve_fails_iff (d : Draft) : (∃ e, d.resolve = .error e) ↔ ¬d.Usable := by
  have hok : (∃ o, d.resolve = .ok o) ↔ d.Usable := by
    simp only [resolve_eq_ok_iff, exists_and_left, exists_eq, and_true]
  rw [← hok]
  cases d.resolve <;> simp

end Draft

end CodeCache
