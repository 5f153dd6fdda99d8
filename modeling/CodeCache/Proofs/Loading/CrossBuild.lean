/-
Loading, on one simulated engine, a cache that another one made.

Main result, `loadBytes_crossBuild`: for all versions, builds, sources and invocations, a fresh
handler over the consumer refuses the producer's cache exactly when `Refused` says so, that is
- the source has length 1 modulo 2 ^ 32, so that no placeholder has the declared length, or
- the layout of the consumer's version replaces the lower half of the fingerprint only, and the two
  builds differ in the upper half.
In every other case patching turns the cache into the one that the consumer itself makes of the
source, and running it gives what running that one gives.

The proof computes a load once and for all (`loadBytes_new`): the patched cache is the source under
`patchedSeal`, and the engine accepts it if that seal is its own.
-/
import CodeCache.Loading.CacheHandler
import CodeCache.Proofs.Cache.Priority
import CodeCache.Proofs.Engine.SealedCaches
import CodeCache.Proofs.Text.Units

namespace CodeCache

namespace SimulatedEngine

/-- the reference source closes every bracket it opens, having none -/
theorem balanced_referenceSource : balanced 0 referenceSource = true := by decide

/-- the engine after it has compiled a source -/
def remembering (C : SimulatedEngine) (source : Text) : SimulatedEngine :=
  { C with compiled := C.compiled ++ [source] }

theorem compile_of_balanced {C : SimulatedEngine} {source : Text}
    (h : balanced 0 source = true) : C.compile source = (.ok (C.cacheOf source), C.remembering source) := by
  simp only [compile, h, if_true, remembering]

theorem reference_none (C : SimulatedEngine) :
    engine.reference none C = (.ok (C.cacheOf referenceSource),
      some (C.cacheOf referenceSource), C.remembering referenceSource) := by
  have hcompile : engine.compile referenceSource C =
      (.ok (C.cacheOf referenceSource), C.remembering referenceSource) :=
    compile_of_balanced balanced_referenceSource
  simp only [ScriptEngine.reference, hcompile]

/-- what patching for `C` makes of the fingerprint of `P` -/
def patchedSeal (P C : SimulatedEngine) : Bytes :=
  if C.version.Narrow then C.fingerprint.take 4 ++ P.fingerprint.drop 4 else C.fingerprint

theorem length_patchedSeal (P C : SimulatedEngine) : (patchedSeal P C).length = 8 := by
  have hP := P.length_fingerprint
  have hC := C.length_fingerprint
  unfold patchedSeal
  split_ifs
  · simp only [List.length_append, List.length_take, List.length_drop]; omega
  · exact hC

theorem patchedSeal_eq_iff (P C : SimulatedEngine) :
    patchedSeal P C = C.fingerprint ↔ ¬(C.version.Narrow ∧ P.build >>> 32 ≠ C.build >>> 32) := by
  unfold patchedSeal
  split_ifs with h
  · rw [half_fingerprint_eq_iff]
    tauto
  · tauto

/-- patching replaces the seal and nothing else -/
theorem patch_cacheOf (P C : SimulatedEngine) (source : Text) :
    Patch.patch .builtIn C.version (.ok (C.cacheOf referenceSource)) (P.cacheOf source) =
      (.ok (), sealed (patchedSeal P C) source) := by
  have hC := C.length_fingerprint
  have hP := P.length_fingerprint
  have hneeded : Patch.needed (LayoutTable.builtIn.spansFor C.version) ≤ 20 := by
    rw [LayoutTable.spansFor_builtIn]
    split_ifs <;> decide
  have hlenC : 20 ≤ (C.cacheOf referenceSource).length := by
    rw [cacheOf_eq_sealed, length_sealed _ hC]; omega
  have hlenP : 20 ≤ (P.cacheOf source).length := by
    rw [cacheOf_eq_sealed, length_sealed _ hP]; omega
  have hcopy : Patch.copySpans (C.cacheOf referenceSource) (P.cacheOf source)
      (LayoutTable.builtIn.spansFor C.version) = sealed (patchedSeal P C) source := by
    rw [LayoutTable.spansFor_builtIn, patchedSeal, cacheOf_eq_sealed, cacheOf_eq_sealed]
    split_ifs
    · exact copySpans_narrow _ _ hC hP
    · exact copySpans_wide _ _ hC hP
  simp only [Patch.patch]
  rw [if_neg (by omega), if_neg (by omega), hcopy]

/-- the placeholder of the declared length has the length that is written down, unless that is 1 -/
theorem units_placeholder_eq_iff (n : Nat) :
    n % 2 ^ 32 = Text.units (Placeholder.source (UInt32.ofNat n)) ↔ n % 2 ^ 32 ≠ 1 := by
  rw [Placeholder.units_source, UInt32.toNat_ofNat']
  split_ifs <;> omega

/-- the engine after a load: it has compiled the reference and run the cache -/
def loadedOnce (C : SimulatedEngine) : SimulatedEngine :=
  { C.remembering referenceSource with runs := C.runs + 1 }

/-- the script that is made of a cache of a source -/
def scriptOf (filename source : Text) (data : Bytes) (invocation : Invocation) : CachedScript :=
  ⟨filename, Placeholder.source (UInt32.ofNat (Text.units source)), data, invocation⟩

/-- **A load computed.** What a fresh handler over `C` gives for a cache made by `P`: the value, the
buffer, the handler and the engine afterwards. -/
theorem loadBytes_new (P C : SimulatedEngine) (invocation : Invocation) (filename source : Text) :
    (CacheHandler.new .builtIn invocation).loadBytes engine filename (P.cacheOf source) C =
      (CacheHandler.answer filename
          (C.run (scriptOf filename source (sealed (patchedSeal P C) source) invocation)).1,
        sealed (patchedSeal P C) source,
        ⟨.builtIn, invocation, some (C.cacheOf referenceSource)⟩, C.loadedOnce) := by
  have hpatch : (CacheHandler.new .builtIn invocation).patch engine (P.cacheOf source) C =
      (.ok (), sealed (patchedSeal P C) source,
        ⟨.builtIn, invocation, some (C.cacheOf referenceSource)⟩, C.remembering referenceSource) := by
    have hp : Patch.patch LayoutTable.builtIn (engine.version C)
        (.ok (C.cacheOf referenceSource)) (P.cacheOf source) =
          (.ok (), sealed (patchedSeal P C) source) := patch_cacheOf P C source
    simp only [CacheHandler.patch, CacheHandler.new, reference_none, hp]
  simp only [CacheHandler.loadBytes, hpatch, CacheHandler.run,
    declaredLength_sealed source (length_patchedSeal P C)]
  rfl

/-- when a cache made by `P` of a source is refused by `C` although it was patched -/
def Refused (P C : SimulatedEngine) (source : Text) : Prop :=
  Text.units source % 2 ^ 32 = 1 ∨ (C.version.Narrow ∧ P.build >>> 32 ≠ C.build >>> 32)

instance (P C : SimulatedEngine) (source : Text) : Decidable (Refused P C source) := by
  unfold Refused; infer_instance

theorem accepts_patched_iff (P C : SimulatedEngine) (source : Text) :
    C.accepts (sealed (patchedSeal P C) source)
        (Placeholder.source (UInt32.ofNat (Text.units source))) = true ↔ ¬Refused P C source := by
  rw [accepts_sealed C (length_patchedSeal P C), patchedSeal_eq_iff, units_placeholder_eq_iff,
    Refused]
  tauto

/-- an accepted cache gives a value or a report of its script -/
theorem run_of_accepts (C : SimulatedEngine) (script : CachedScript)
    (h : C.accepts script.data script.placeholder = true) :
    (∃ value, (C.run script).1 = .ok (.completed value)) ∨
      ∃ report, (C.run script).1 = .error (.script report) := by
  simp only [run, h, if_true]
  rcases evaluate_cases script.data script.invocation with ⟨value, hv⟩ | ⟨report, hr⟩
  · exact Or.inl ⟨value, by rw [hv]; rfl⟩
  · exact Or.inr ⟨report, by rw [hr]; rfl⟩

theorem run_of_not_accepts (C : SimulatedEngine) (script : CachedScript)
    (h : ¬C.accepts script.data script.placeholder = true) : (C.run script).1 = .ok .rejected := by
  rw [run, if_neg h]

/-- the maker of a cache -/
def maker : SimulatedEngine := .new ⟨22, 3, 0⟩ 0x1111000000000001

/-- an engine of a narrow version that differs from the maker in the lower half of its build -/
def near : SimulatedEngine := .new ⟨18, 0, 0⟩ 0x1111000000000002

/-- an engine of a narrow version that differs from the maker in the upper half of its build -/
def far : SimulatedEngine := .new ⟨18, 0, 0⟩ 0x2222000000000001

end SimulatedEngine

open SimulatedEngine in
/-- **Loading across builds.** Let `data` be the cache that `P` makes of a source. A fresh handler
over `C` answers that the cache was rejected exactly in the cases of `Refused`. Otherwise the buffer
becomes the cache that `C` makes of the source, and the result, a value or a report of the script,
is that of running this cache on `C` with the placeholder of its declared length. It is never an
error of the header or the reference. -/
theorem CacheHandler.loadBytes_crossBuild (P C : SimulatedEngine) (invocation : Invocation)
    (filename source : Text) (data : Bytes) (h : (P.compile source).1 = .ok data) :
    let loaded := (new .builtIn invocation).loadBytes engine filename data C
    let result := loaded.1
    let buffer := loaded.2.1
    (result = .error (.cacheRejected filename) ↔ Refused P C source) ∧
    (¬Refused P C source →
      (C.compile source).1 = .ok buffer ∧
      ∃ length, Header.declaredLength buffer = .ok length ∧
        let outcome := (C.run ⟨filename, Placeholder.source length, buffer, invocation⟩).1
        (∃ value, outcome = .ok (.completed value) ∧ result = .ok value) ∨
          ∃ report, outcome = .error (.script report) ∧ result = .error (.engine (.script report))) ∧
    ∀ e : CacheError, result ≠ .error (.cache e) := by
  have hbalanced : balanced 0 source = true := by
    by_contra hb
    simp [SimulatedEngine.compile, hb] at h
  have hdata : data = P.cacheOf source := by
    rw [compile_of_balanced hbalanced] at h
    exact (Except.ok.inj h).symm
  subst hdata
  rw [loadBytes_new]
  have haccepts := accepts_patched_iff P C source
  set script := scriptOf filename source (sealed (patchedSeal P C) source) invocation with hscript
  by_cases hrefused : Refused P C source
  · have hrun := run_of_not_accepts C script fun ha => haccepts.1 ha hrefused
    simp only [hrun, answer]
    refine ⟨⟨?_, ?_⟩, ?_, by simp⟩
    · intro _
      exact hrefused
    · intro _
      trivial
    · intro hn
      exact absurd hrefused hn
  · have hseal : patchedSeal P C = C.fingerprint := by
      rw [patchedSeal_eq_iff]
      exact fun hn => hrefused (Or.inr hn)
    have hrun := run_of_accepts C script (haccepts.2 hrefused)
    have hown : (C.compile source).1 = .ok (sealed (patchedSeal P C) source) := by
      rw [hseal, compile_of_balanced hbalanced]
      rfl
    have hlength := declaredLength_sealed source (length_patchedSeal P C)
    rcases hrun with ⟨value, hv⟩ | ⟨report, hr⟩
    · simp only [hv, answer]
      refine ⟨by simp [hrefused], fun _ => ⟨hown, _, hlength, Or.inl ⟨value, hv, rfl⟩⟩, by simp⟩
    · simp only [hr, answer]
      refine ⟨by simp [hrefused], fun _ => ⟨hown, _, hlength, Or.inr ⟨report, hr, rfl⟩⟩, by simp⟩

open SimulatedEngine in
/-- under the narrow layout, a difference in the lower half is patched and one in the upper half is
not -/
theorem CacheHandler.loadBytes_crossBuild_halves :
    (maker.compile "[7]".toList).1 = .ok (maker.cacheOf "[7]".toList) ∧
    (near.compile "[7]".toList).1 = .ok ((new .builtIn .script).loadBytes engine "a.bin".toList
      (maker.cacheOf "[7]".toList) near).2.1 ∧
    ((new .builtIn .script).loadBytes engine "a.bin".toList
      (maker.cacheOf "[7]".toList) far).1 = .error (.cacheRejected "a.bin".toList) := by
  have hmade : (maker.compile "[7]".toList).1 = .ok (maker.cacheOf "[7]".toList) := rfl
  have hnear := loadBytes_crossBuild maker near .script "a.bin".toList "[7]".toList _ hmade
  have hfar := loadBytes_crossBuild maker far .script "a.bin".toList "[7]".toList _ hmade
  exact ⟨hmade, (hnear.2.1 (by decide)).1, hfar.1.2 (by decide)⟩

end CodeCache
