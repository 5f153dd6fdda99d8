/-
Sources that are no text are refused before anything is done with them.

Both ways to give a source to a compile, as bytes and as a file, decode it first, and so they refuse
the same bytes at the same place. Every later error is another one (`compileText_error`,
`compileSource_error`, `writeOutputs_error`).

Main result, `Toolchain.compile_textOnly`.
-/
import CodeCache.Compile.Pipeline
import CodeCache.Engine.Simulated
import CodeCache.Proofs.Text.Defects

namespace CodeCache

/-- the error says that a source is not text -/
def CompileError.IsNotText (e : CompileError) : Prop := ∃ index path, e = .notText index path

variable {σ : Type} {T : Toolchain σ} {o : Options} {m : Machine} {s : σ} {bs : Bytes} {t : Text}
  {e : CompileError}

/-! ## Errors behind the decoding -/

theorem ScriptEngine.compileText_error {E : ScriptEngine σ} (h : (E.compileText t s).1 = .error e) :
    ¬e.IsNotText := by
  rintro ⟨index, path, rfl⟩
  unfold compileText at h
  cases hcompile : (E.compile t s).1 with
  | error cause => simp [hcompile, Except.mapError] at h
  | ok cache => simp [hcompile, Except.mapError] at h

theorem Loader.write_error {directory name extension : Text} {table : LayoutTable}
    (h : (Loader.write directory name extension table m).1 = .error e) : ¬e.IsNotText := by
  rintro ⟨index, path, rfl⟩
  rw [Loader.write_eq] at h
  cases hrender : render extension table with
  | error cause => simp [hrender] at h
  | ok script =>
    rcases hwrite : m.write (Path.join directory name) (Utf8.encode script) with ⟨_ | _, m'⟩
    · simp [hrender, hwrite] at h
    · simp [hrender, hwrite] at h

namespace Toolchain

theorem compileSource_error (h : (T.compileSource o t m s).1 = .error e) : ¬e.IsNotText := by
  unfold compileSource at h
  by_cases helectron : o.electron = true
  · rintro ⟨index, path, rfl⟩
    rw [if_pos helectron] at h
    unfold compileIsolated at h
    cases hlocate : m.locateElectron o.electronPath (Path.directory o.filename) with
    | error cause => simp [hlocate] at h
    | ok executable =>
      rcases hcompile : Isolated.compile T.flags executable t m with ⟨_ | _, m'⟩
      · simp [hlocate, hcompile] at h
      · simp [hlocate, hcompile] at h
  · rw [if_neg helectron] at h
    cases hengine : T.engine with
    | none =>
      rintro ⟨index, path, rfl⟩
      simp [hengine] at h
    | some E =>
      simp only [hengine] at h
      exact E.compileText_error h

theorem writeOutputs_error {cache : Bytes} (h : (T.writeOutputs o cache m).1 = .error e) :
    ¬e.IsNotText := by
  rw [writeOutputs_eq] at h
  rcases hmake : m.makeDirectories o.output with ⟨_ | _, m₁⟩
  · rintro ⟨index, path, rfl⟩
    simp [hmake] at h
  rcases hwrite : m₁.write o.cachePath cache with ⟨_ | _, m₂⟩
  · rintro ⟨index, path, rfl⟩
    simp [hmake, hwrite] at h
  simp only [hmake, hwrite, writeLoader_eq] at h
  split_ifs at h
  rcases hloader : Loader.write o.output o.loaderName o.extension T.layouts m₂ with ⟨_ | _, m₃⟩
  · simp only [hloader, Except.error.injEq] at h
    subst h
    exact Loader.write_error (congrArg Prod.fst hloader)
  · simp [hloader] at h

/-! ## Decoding -/

theorem readSource_of_text (h : m.read o.filename = .ok (Utf8.encode t)) :
    m.readSource o.filename = .ok t := by
  rw [Machine.readSource, h]
  simp only [Utf8.decode_encode]

theorem readSource_of_defect {d : Utf8.Defect} (h : m.read o.filename = .ok bs)
    (hd : Utf8.decode bs = .error d) :
    m.readSource o.filename = .error (.notText d.index (some o.filename)) := by
  rw [Machine.readSource, h]
  simp only [hd]

/-- a file of text is not refused for not being text -/
theorem compileFile_of_text (h : m.read o.filename = .ok (Utf8.encode t))
    (he : (T.compileFile o m s).1 = .error e) : ¬e.IsNotText := by
  rw [compileFile_eq] at he
  simp only [readSource_of_text h] at he
  rcases hcompile : T.compileSource o (Source.prepare o.asModule t) m s with ⟨_ | cache, m₁, s₁⟩
  · simp only [hcompile, Except.error.injEq] at he
    subst he
    exact compileSource_error (congrArg Prod.fst hcompile)
  rcases hwrite : T.writeOutputs o cache m₁ with ⟨_ | _, m₂⟩
  · simp only [hcompile, hwrite, Except.error.injEq] at he
    subst he
    exact writeOutputs_error (congrArg Prod.fst hwrite)
  · simp [hcompile, hwrite] at he

/-- **Only text is compiled.** Bytes that encode a text compile to what the text compiles to, and a
file of them is never refused for not being text. All other bytes are refused, for every engine and for
files compiled by an engine or in Electron alike: the error names the length of the longest beginning
that is well-formed, and the engine and the machine are left as they were. -/
theorem compile_textOnly (bs : Bytes) :
    (∀ t, bs = Utf8.encode t →
      (∀ {σ : Type} (E : ScriptEngine σ) (s : σ),
        E.compileBytes bs s = E.compileText t s ∧
          ∀ e, (E.compileBytes bs s).1 = .error e → ¬e.IsNotText) ∧
      ∀ {σ : Type} (T : Toolchain σ) (o : Options) (m : Machine) (s : σ),
        m.read o.filename = .ok bs →
          m.readSource o.filename = .ok t ∧
            ∀ e, (T.compileFile o m s).1 = .error e → ¬e.IsNotText) ∧
    (¬Utf8.WellFormed bs → ∃ n, IsGreatest {k | Utf8.WellFormed (bs.take k)} n ∧
      (∀ {σ : Type} (E : ScriptEngine σ) (s : σ),
        E.compileBytes bs s = (.error (.notText n none), s)) ∧
      ∀ {σ : Type} (T : Toolchain σ) (o : Options) (m : Machine) (s : σ),
        m.read o.filename = .ok bs →
          T.compileFile o m s = (.error (.notText n (some o.filename)), m, s)) := by
  constructor
  · rintro t rfl
    constructor
    · intro σ E s
      have hcompile : E.compileBytes (Utf8.encode t) s = E.compileText t s := by
        simp only [ScriptEngine.compileBytes, Utf8.decode_encode]
      refine ⟨hcompile, ?_⟩
      intro e he
      rw [hcompile] at he
      exact E.compileText_error he
    · intro σ T o m s hread
      exact ⟨readSource_of_text hread, fun e he => compileFile_of_text hread he⟩
  · intro hbytes
    obtain ⟨d, hd⟩ := Utf8.not_wellFormed_iff.1 hbytes
    refine ⟨d.index, Utf8.decode_error hd, ?_, ?_⟩
    · intro σ E s
      simp only [ScriptEngine.compileBytes, hd]
    · intro σ T o m s hread
      simp only [compileFile_eq, readSource_of_defect hread hd]

end Toolchain

namespace SimulatedEngine

/-- a quoted character of two bytes, a surrogate, and a character cut short -/
def defective : Bytes := [0x22, 0xC3, 0xA9, 0x22, 0xED, 0xA0, 0x80, 0xF0, 0x9F]

/-- a file of these bytes, and an Electron that would take it -/
def defectiveMachine : Machine :=
  ⟨⟨[(["a.js"], .file defective false none),
    (["electron"], .file [] true (some ⟨"electron", .compiler ⟨none, [], [], 0, true⟩⟩))]⟩, [],
    [], []⟩

def defectiveOptions (electron : Bool) : Options :=
  ⟨"a.js", "out", false, electron, some "electron", true, "loader.js", Extension.standard⟩

def defectiveResult (electron : Bool) :
    Except CompileError Report × Machine × SimulatedEngine :=
  Toolchain.compileFile ⟨some engine, .builtIn, .complete⟩ (defectiveOptions electron)
    defectiveMachine standard

/-- The four bytes in front of the surrogate are the longest text at the beginning. They are compiled
as that text; all of the bytes are refused there, as they are and from a file, whoever compiles it. -/
theorem compile_textOnly_surrogate :
    IsGreatest {k | Utf8.WellFormed (defective.take k)} 4 ∧
    engine.compileBytes (defective.take 4) standard = engine.compileText "\"é\"" standard ∧
    engine.compileBytes defective standard = (.error (.notText 4 none), standard) ∧
    ∀ electron, defectiveResult electron =
      (.error (.notText 4 (some "a.js")), defectiveMachine, standard) := by
  obtain ⟨n, hgreatest, hbytes, hfile⟩ := (Toolchain.compile_textOnly defective).2 (by decide)
  have htext := (Toolchain.compile_textOnly (defective.take 4)).1 "\"é\"" (by decide)
  have hcompile := hbytes engine standard
  have hfour : engine.compileBytes defective standard = (.error (.notText 4 none), standard) := rfl
  obtain rfl : n = 4 := by
    rw [hfour] at hcompile
    simpa using hcompile.symm
  exact ⟨hgreatest, (htext.1 engine standard).1, hcompile, fun electron => hfile _ _ _ _ rfl⟩

end SimulatedEngine

end CodeCache
