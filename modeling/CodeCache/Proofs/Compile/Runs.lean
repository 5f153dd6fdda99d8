/-
Files compiled one after another.

`Toolchain.Runs` is a sequence of compiles that succeed, with the reports they make; `compileFiles`
follows it to its end (`compileFiles_of_runs`) or to the first failure behind it
(`compileFiles_of_failure`), and one of both always happens (`compileFiles_cases`).
-/
import CodeCache.Proofs.Compile.Outputs

namespace CodeCache

namespace Toolchain

/-- compiles that succeed, one after another, each where the one before it has left off -/
inductive Runs {σ : Type} (T : Toolchain σ) :
    Machine → σ → List Options → List Report → Machine → σ → Prop where
  | nil {m s} : Runs T m s [] [] m s
  | cons {m s o report m₁ s₁ options reports m₂ s₂} :
    T.compileFile o m s = (.ok report, m₁, s₁) → Runs T m₁ s₁ options reports m₂ s₂ →
    Runs T m s (o :: options) (report :: reports) m₂ s₂

variable {σ : Type} {T : Toolchain σ} {m m₁ m₂ : Machine} {s s₁ s₂ : σ} {o : Options}
  {options before : List Options} {report : Report} {reports : List Report} {e : CompileError}

theorem compileFiles_of_runs (h : T.Runs m s options reports m₁ s₁) :
    T.compileFiles m s options = (.ok reports, m₁, s₁) := by
  induction h with
  | nil => rfl
  | cons hfile _ ih => simp only [compileFiles, hfile, ih]

theorem compileFiles_of_failure (h : T.Runs m s before reports m₁ s₁)
    (hfile : T.compileFile o m₁ s₁ = (.error e, m₂, s₂)) (later : List Options) :
    T.compileFiles m s (before ++ o :: later) = (.error e, m₂, s₂) := by
  induction h with
  | nil => simp only [List.nil_append, compileFiles, hfile]
  | cons hfirst _ ih => simp only [List.cons_append, compileFiles, hfirst, ih hfile]

/-- either every compile succeeds, or one is the first that fails -/
theorem compileFiles_cases (T : Toolchain σ) (m : Machine) (s : σ) (options : List Options) :
    (∃ reports m₁ s₁, T.Runs m s options reports m₁ s₁) ∨
      ∃ before o later reports m₁ s₁ e m₂ s₂, options = before ++ o :: later ∧
        T.Runs m s before reports m₁ s₁ ∧ T.compileFile o m₁ s₁ = (.error e, m₂, s₂) := by
  induction options generalizing m s with
  | nil => exact .inl ⟨[], m, s, .nil⟩
  | cons o options ih =>
    rcases hfile : T.compileFile o m s with ⟨e | report, m₁, s₁⟩
    · exact .inr ⟨[], o, options, [], m, s, e, m₁, s₁, rfl, .nil, hfile⟩
    · rcases ih m₁ s₁ with ⟨reports, m₂, s₂, hrest⟩ |
        ⟨before, o', later, reports, m₂, s₂, e, m₃, s₃, rfl, hrest, hfailed⟩
      · exact .inl ⟨report :: reports, m₂, s₂, .cons hfile hrest⟩
      · exact .inr ⟨o :: before, o', later, report :: reports, m₂, s₂, e, m₃, s₃, rfl,
          .cons hfile hrest, hfailed⟩

theorem runs_of_compileFiles (h : T.compileFiles m s options = (.ok reports, m₁, s₁)) :
    T.Runs m s options reports m₁ s₁ := by
  rcases T.compileFiles_cases m s options with
    ⟨reports', m', s', hruns⟩ | ⟨before, o, later, reports', m', s', e, m₂, s₂, rfl, hruns, hfile⟩
  · rw [compileFiles_of_runs hruns] at h
    cases h
    exact hruns
  · rw [compileFiles_of_failure hruns hfile] at h
    cases h

/-- a report is about the file that was to be compiled -/
def Tells (o : Options) (report : Report) : Prop :=
  report.source = o.filename ∧ report.cachePath = o.cachePath

theorem tells_of_compileFile (h : T.compileFile o m s = (.ok report, m₁, s₁)) :
    Tells o report := by
  obtain ⟨text, cache, loaderPath, m', -, -, -, rfl⟩ := compileFile_ok h
  exact ⟨rfl, rfl⟩

/-- one report for each file, in order -/
theorem Runs.tells (h : T.Runs m s options reports m₁ s₁) :
    List.Forall₂ Tells options reports := by
  induction h with
  | nil => exact .nil
  | cons hfile _ ih => exact .cons (tells_of_compileFile hfile) ih

end Toolchain

end CodeCache
