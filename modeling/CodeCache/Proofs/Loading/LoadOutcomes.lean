/-
Loading bytes that may be anything on a simulated engine.

A load checks its buffer in stages: the reference and then the buffer against the spans of the
layout, the patched buffer for a length field, then the engine for its own seal, and last the payload
for a source. The patch has changed the bytes that the later stages look at.

Main result, `loadBytes_classified`: which stage stops a load, for every buffer, every table and
every engine, and what the buffer and the engine are afterwards; and that loading the buffer that a
load leaves gives the same again.

The proof separates the patch, which depends on the layout, the build and the buffer
(`loadBytes_unpatched`, `loadBytes_patched`), from the run of a buffer that was patched
(`run_fst_iff`). It can be repeated because a patch absorbs itself (`loadBytes_again`).
-/
import CodeCache.Proofs.Cache.Coverage
import CodeCache.Proofs.Cache.HeaderRuns
import CodeCache.Proofs.Loading.CrossBuild
import CodeCache.Proofs.Text.Utf8

namespace CodeCache

namespace SimulatedEngine

/-! ## The seal -/

/-- why an engine refuses a buffer: it is too short, is not marked as a cache, has the fingerprint of
another build, or declares the length that no placeholder has -/
def Rejects (E : SimulatedEngine) (data : Bytes) : Prop :=
  data.length < 20 ∨ data.take 8 ≠ magic ∨ (data.drop 12).take 8 ≠ E.fingerprint ∨
    Header.declaredLength data = .ok 1

instance (E : SimulatedEngine) (data : Bytes) : Decidable (E.Rejects data) := by
  unfold Rejects; infer_instance

/-- with the placeholder of the declared length, the length is not a reason to refuse, unless it
is 1 -/
theorem units_declared_iff {data : Bytes} {length : UInt32}
    (h : Header.declaredLength data = .ok length) :
    LittleEndian.decode ((data.drop 8).take 4) = Text.units (Placeholder.source length) ↔
      length ≠ 1 := by
  unfold Header.declaredLength at h
  split_ifs at h with hlen
  have hbound := LittleEndian.decode_lt ((data.drop 8).take 4)
  have hfour : ((data.drop 8).take 4).length = 4 := by
    simp only [Header.fingerprintOffset, List.length_take, List.length_drop] at hlen ⊢
    omega
  rw [hfour] at hbound
  have hlength := Except.ok.inj h
  simp only [Header.lengthOffset] at hlength
  have hmod : LittleEndian.decode ((data.drop 8).take 4) % 2 ^ 32 =
      LittleEndian.decode ((data.drop 8).take 4) := Nat.mod_eq_of_lt hbound
  have hunits := units_placeholder_eq_iff (LittleEndian.decode ((data.drop 8).take 4))
  rw [hmod, hlength] at hunits
  rw [hunits, ← hlength, ne_eq, ne_eq, not_iff_not, ← UInt32.toNat_inj, UInt32.toNat_ofNat', hmod]
  rfl

theorem accepts_iff_not_rejects (E : SimulatedEngine) {data : Bytes} {length : UInt32}
    (h : Header.declaredLength data = .ok length) :
    E.accepts data (Placeholder.source length) = true ↔ ¬E.Rejects data := by
  have hunits := units_declared_iff h
  simp only [accepts, Bool.and_eq_true, decide_eq_true_eq, beq_iff_eq, and_assoc]
  simp only [Rejects, Header.fingerprintEnd, Header.lengthOffset, Header.fingerprintOffset, h,
    Except.ok.injEq, hunits, not_or, Nat.not_lt, ne_eq, not_not]

/-! ## The payload -/

/-- what lies behind the header is no text, or no wrapped module where one is called -/
def Unreadable (invocation : Invocation) (data : Bytes) : Prop :=
  (∀ source, data.drop 20 ≠ Utf8.encode source) ∨
    (invocation = .module ∧ ∀ body, data.drop 20 ≠ Utf8.encode (ModuleWrapper.wrap body))

/-- behind the header lies the source of a value -/
def Carries : Invocation → Bytes → Json → Prop
  | .script, data, value => ∃ source, data.drop 20 = Utf8.encode source ∧ value = scriptValue source
  | .module, data, value =>
    ∃ body, data.drop 20 = Utf8.encode (ModuleWrapper.wrap body) ∧ value = moduleValue body

theorem evaluate_eq_ok_iff {data : Bytes} {invocation : Invocation} {value : Json} :
    evaluate data invocation = .ok value ↔ Carries invocation data value := by
  unfold evaluate
  cases hdecode : Utf8.decode (data.drop Header.fingerprintEnd) with
  | error defect =>
    have hno : ∀ source, data.drop 20 ≠ Utf8.encode source := by
      intro source hs
      rw [Header.fingerprintEnd, hs, Utf8.decode_encode] at hdecode
      cases hdecode
    cases invocation <;> simp [Carries, hno]
  | ok source =>
    have hsource : data.drop 20 = Utf8.encode source := Utf8.decode_eq_ok_iff.1 hdecode
    have hinj : ∀ t, Utf8.encode source = Utf8.encode t ↔ source = t := by
      intro t
      rw [← Utf8.decode_eq_ok_iff, Utf8.decode_encode, Except.ok.injEq]
    cases invocation with
    | script => simp [Carries, hsource, hinj, eq_comm]
    | module =>
      simp only [Carries, hsource, hinj, ← ModuleWrapper.unwrap?_eq_some_iff]
      cases ModuleWrapper.unwrap? source with
      | none => simp
      | some body => simp [eq_comm]

theorem unreadable_iff {data : Bytes} {invocation : Invocation} :
    Unreadable invocation data ↔ ∀ value, ¬Carries invocation data value := by
  cases invocation with
  | script =>
    simp only [Unreadable, Carries, reduceCtorEq, false_and, or_false, not_exists, not_and]
    constructor
    · intro h value source hsource
      exact absurd hsource (h source)
    · intro h source hsource
      exact h _ source hsource rfl
  | module =>
    simp only [Unreadable, Carries, true_and, not_exists, not_and]
    constructor
    · rintro (h | h) value body hbody
      · exact absurd hbody (h _)
      · exact absurd hbody (h body)
    · intro h
      exact Or.inr fun body hbody => h _ body hbody rfl

/-- a payload has a value or gives a report of the script -/
theorem evaluate_error_iff {data : Bytes} {invocation : Invocation} :
    (∃ report, evaluate data invocation = .error (.script report)) ↔
      Unreadable invocation data := by
  rw [unreadable_iff]
  constructor
  · rintro ⟨report, hr⟩ value hv
    rw [evaluate_eq_ok_iff.2 hv] at hr
    cases hr
  · intro h
    rcases evaluate_cases data invocation with ⟨value, hv⟩ | hr
    · exact absurd (evaluate_eq_ok_iff.1 hv) (h value)
    · exact hr

end SimulatedEngine

namespace CacheHandler

open SimulatedEngine

/-! ## Running a patched buffer -/

section Running

variable {h : CacheHandler} {E : SimulatedEngine} {filename : Text} {data : Bytes}

theorem run_short (hshort : data.length < 12) :
    h.run engine filename data E = (.error (.cache (.invalidBuffer 12 data.length)), E) := by
  have hlength : Header.declaredLength data = .error (.invalidBuffer 12 data.length) :=
    if_neg (Nat.not_le.2 hshort)
  simp only [run, hlength]

variable (h E filename)

/-- with a length field there is a run, and only one -/
theorem run_long (hlong : 12 ≤ data.length) :
    ∃ length, Header.declaredLength data = .ok length ∧
      h.run engine filename data E =
        (answer filename (E.run ⟨filename, Placeholder.source length, data, h.invocation⟩).1,
          { E with runs := E.runs + 1 }) := by
  obtain ⟨length, hlength⟩ : ∃ length, Header.declaredLength data = .ok length :=
    ⟨_, if_pos hlong⟩
  refine ⟨length, hlength, ?_⟩
  simp only [run, hlength]
  rfl

/-- what a run comes to: the buffer is refused, or its payload gives a report or a value -/
theorem run_fst_cases (hlong : 12 ≤ data.length) :
    (E.Rejects data ∧ (h.run engine filename data E).1 = .error (.cacheRejected filename)) ∨
      (¬E.Rejects data ∧ (∃ report, evaluate data h.invocation = .error (.script report) ∧
        (h.run engine filename data E).1 = .error (.engine (.script report)))) ∨
      (¬E.Rejects data ∧ ∃ value, evaluate data h.invocation = .ok value ∧
        (h.run engine filename data E).1 = .ok value) := by
  obtain ⟨length, hlength, hrun⟩ := run_long h E filename hlong
  rw [hrun]
  have haccepts := E.accepts_iff_not_rejects hlength
  by_cases hr : E.Rejects data
  · have hno : ¬E.accepts data (Placeholder.source length) = true := fun ha => haccepts.1 ha hr
    exact Or.inl ⟨hr, by rw [run_of_not_accepts E _ hno]; rfl⟩
  · simp only [SimulatedEngine.run, haccepts.2 hr, if_true]
    rcases evaluate_cases data h.invocation with ⟨value, hv⟩ | ⟨report, he⟩
    · exact Or.inr (Or.inr ⟨hr, value, hv, by rw [hv]; rfl⟩)
    · exact Or.inr (Or.inl ⟨hr, report, he, by rw [he]; rfl⟩)

/-- a run gives what the header and the payload say: neither outcome is met for another reason -/
theorem run_fst_iff (hlong : 12 ≤ data.length) :
    let result := (h.run engine filename data E).1
    (result = .error (.cacheRejected filename) ↔ E.Rejects data) ∧
    ((∃ report, result = .error (.engine (.script report))) ↔
      ¬E.Rejects data ∧ Unreadable h.invocation data) ∧
    ∀ value, result = .ok value ↔ ¬E.Rejects data ∧ Carries h.invocation data value := by
  intro result
  rcases run_fst_cases h E filename hlong with
    ⟨hr, hrun⟩ | ⟨hr, report, he, hrun⟩ | ⟨hr, value, hv, hrun⟩
  · simp only [result, hrun]
    simp [hr]
  · have hnone := evaluate_error_iff.1 ⟨report, he⟩
    simp only [result, hrun]
    simp [hr, hnone, unreadable_iff.1 hnone]
  · have hcarries : ∀ other, Carries h.invocation data other ↔ value = other := by
      intro other
      rw [← evaluate_eq_ok_iff, hv, Except.ok.injEq]
    have hreadable : ¬Unreadable h.invocation data := by
      rw [unreadable_iff]
      exact fun hno => hno value ((hcarries value).2 rfl)
    simp only [result, hrun]
    simp [hr, hreadable, hcarries]

variable {h E filename}

/-- a run depends on the build of its engine and on the invocation of its handler -/
theorem run_fst_congr {g : CacheHandler} {F : SimulatedEngine} (hg : g.invocation = h.invocation)
    (hF : F.build = E.build) :
    (g.run engine filename data F).1 = (h.run engine filename data E).1 := by
  unfold run
  cases Header.declaredLength data with
  | error e => rfl
  | ok length =>
    have haccepts : F.accepts data (Placeholder.source length) =
        E.accepts data (Placeholder.source length) := by
      simp only [accepts, fingerprint, hF]
    simp only [engine, SimulatedEngine.run, haccepts, hg]

/-- how often a buffer is run: once, unless it has no length field -/
def runCount (data : Bytes) : Nat := if data.length < 12 then 0 else 1

theorem run_snd : (h.run engine filename data E).2 = { E with runs := E.runs + runCount data } := by
  unfold runCount
  split_ifs with hlength
  · rw [run_short hlength]
    rfl
  · obtain ⟨_, -, hrun⟩ := run_long h E filename (Nat.not_lt.1 hlength)
    rw [hrun]

end Running

/-! ## A load -/

/-- the handler has kept no reference cache yet, or that of the engine -/
def Serves (h : CacheHandler) (E : SimulatedEngine) : Prop :=
  h.kept = none ∨ h.kept = some (E.cacheOf referenceSource)

theorem serves_new (table : LayoutTable) (invocation : Invocation) (E : SimulatedEngine) :
    (new table invocation).Serves E := Or.inl rfl

/-- the handler with the reference cache of an engine -/
def keeping (h : CacheHandler) (E : SimulatedEngine) : CacheHandler :=
  { h with kept := some (E.cacheOf referenceSource) }

/-- the buffer patched for an engine, and whether that could be done -/
def patched (h : CacheHandler) (E : SimulatedEngine) (data : Bytes) :
    Except CacheError Unit × Bytes :=
  Patch.patch h.table E.version (.ok (E.cacheOf referenceSource)) data

section Loading

variable {h : CacheHandler} {E : SimulatedEngine} (filename : Text) {data : Bytes}

/-- the reference is there or is compiled; either way the engine stays of its build and runs
nothing -/
theorem patch_serving (data : Bytes) (hs : h.Serves E) :
    ∃ C : SimulatedEngine, C.version = E.version ∧ C.build = E.build ∧ C.runs = E.runs ∧
      h.patch engine data E = ((h.patched E data).1, (h.patched E data).2, h.keeping E, C) := by
  rcases hs with hkept | hkept
  · refine ⟨E.remembering referenceSource, rfl, rfl, rfl, ?_⟩
    simp only [patch, hkept, reference_none]
    rfl
  · refine ⟨E, rfl, rfl, rfl, ?_⟩
    simp only [patch, hkept, ScriptEngine.reference]
    rfl

theorem loadBytes_unpatched (hs : h.Serves E) {e : CacheError}
    (hp : (h.patched E data).1 = .error e) :
    ∃ C : SimulatedEngine, C.version = E.version ∧ C.build = E.build ∧ C.runs = E.runs ∧
      h.loadBytes engine filename data E = (.error (.cache e), data, h.keeping E, C) := by
  obtain ⟨C, hversion, hbuild, hruns, hpatch⟩ := patch_serving data hs
  have hdata : (h.patched E data).2 = data := Patch.patch_of_error hp
  refine ⟨C, hversion, hbuild, hruns, ?_⟩
  simp only [loadBytes, hpatch, hp, hdata]

/-- a load that is stopped by the patch gives its error, keeps the buffer and runs nothing -/
theorem loadBytes_stopped (hs : h.Serves E) {e : CacheError}
    (hp : (h.patched E data).1 = .error e) :
    let loaded := h.loadBytes engine filename data E
    loaded.1 = .error (.cache e) ∧ loaded.2.1 = data ∧ loaded.2.2.2.runs = E.runs := by
  obtain ⟨C, -, -, hruns, hload⟩ := loadBytes_unpatched filename hs hp
  rw [hload]
  exact ⟨rfl, rfl, hruns⟩

theorem loadBytes_patched (hs : h.Serves E) (hp : (h.patched E data).1 = .ok ()) :
    ∃ C : SimulatedEngine, C.version = E.version ∧ C.build = E.build ∧
      C.runs = E.runs + runCount data ∧
      h.loadBytes engine filename data E =
        ((h.run engine filename (h.patched E data).2 E).1, (h.patched E data).2, h.keeping E,
          C) := by
  obtain ⟨C, hversion, hbuild, hruns, hpatch⟩ := patch_serving data hs
  have hcount : runCount (h.patched E data).2 = runCount data := by
    unfold runCount
    rw [show (h.patched E data).2.length = data.length from Patch.length_patch]
  have hrun : ((h.keeping E).run engine filename (h.patched E data).2 C).1 =
      (h.run engine filename (h.patched E data).2 E).1 := run_fst_congr rfl hbuild
  refine ⟨{ C with runs := C.runs + runCount data }, hversion, hbuild, by rw [hruns], ?_⟩
  simp only [loadBytes, hpatch, hp, hrun, run_snd, hcount]

/-- after a load the handler serves the engine as before, and the engine is of its build -/
theorem loadBytes_serves (data : Bytes) (hs : h.Serves E) :
    let loaded := h.loadBytes engine filename data E
    loaded.2.2.1.Serves loaded.2.2.2 ∧ loaded.2.2.1.table = h.table ∧
      loaded.2.2.1.invocation = h.invocation ∧ loaded.2.2.2.version = E.version ∧
      loaded.2.2.2.build = E.build := by
  have hkeeping : ∀ C : SimulatedEngine, C.build = E.build → (h.keeping E).Serves C := by
    intro C hbuild
    refine Or.inr ?_
    simp only [keeping, cacheOf, fingerprint, hbuild]
  cases hp : (h.patched E data).1 with
  | error e =>
    obtain ⟨C, hversion, hbuild, -, hload⟩ := loadBytes_unpatched filename hs hp
    rw [hload]
    exact ⟨hkeeping C hbuild, rfl, rfl, hversion, hbuild⟩
  | ok =>
    obtain ⟨C, hversion, hbuild, -, hload⟩ := loadBytes_patched filename hs hp
    rw [hload]
    exact ⟨hkeeping C hbuild, rfl, rfl, hversion, hbuild⟩

/-- what a load gives and leaves in the buffer depends on the table and the invocation of the
handler and on the version and the build of the engine -/
theorem loadBytes_congr (data : Bytes) {g : CacheHandler} {F : SimulatedEngine}
    (hs : h.Serves E) (hg : g.Serves F) (htable : g.table = h.table)
    (hinvocation : g.invocation = h.invocation) (hversion : F.version = E.version)
    (hbuild : F.build = E.build) :
    (g.loadBytes engine filename data F).1 = (h.loadBytes engine filename data E).1 ∧
      (g.loadBytes engine filename data F).2.1 = (h.loadBytes engine filename data E).2.1 := by
  have hpatched : g.patched F data = h.patched E data := by
    simp only [patched, htable, hversion, cacheOf, fingerprint, hbuild]
  cases hp : (h.patched E data).1 with
  | error e =>
    obtain ⟨_, -, -, -, hh⟩ := loadBytes_unpatched filename hs hp
    obtain ⟨_, -, -, -, hl⟩ := loadBytes_unpatched filename hg (hpatched ▸ hp)
    rw [hh, hl]
    exact ⟨rfl, rfl⟩
  | ok =>
    obtain ⟨_, -, -, -, hh⟩ := loadBytes_patched filename hs hp
    obtain ⟨_, -, -, -, hl⟩ := loadBytes_patched filename hg (hpatched ▸ hp)
    rw [hh, hl, hpatched]
    exact ⟨run_fst_congr hinvocation hbuild, rfl⟩

/-- a load of the buffer that a load left gives the same and leaves it alone -/
theorem loadBytes_again (hs : h.Serves E) (buffer : Bytes)
    (hbuffer : buffer = (h.loadBytes engine filename data E).2.1) :
    (h.loadBytes engine filename buffer E).1 = (h.loadBytes engine filename data E).1 ∧
      (h.loadBytes engine filename buffer E).2.1 = buffer := by
  cases hp : (h.patched E data).1 with
  | error e =>
    obtain ⟨_, -, -, -, hh⟩ := loadBytes_unpatched filename hs hp
    rw [hh] at hbuffer
    subst hbuffer
    rw [hh]
    exact ⟨rfl, rfl⟩
  | ok =>
    obtain ⟨_, -, -, -, hh⟩ := loadBytes_patched filename hs hp
    rw [hh] at hbuffer ⊢
    subst hbuffer
    -- a patch absorbs itself
    have htwice : h.patched E (h.patched E data).2 = h.patched E data :=
      (HeaderPatcher.mk h.table E.version (.ok (E.cacheOf referenceSource))).patch_patch data
    obtain ⟨_, -, -, -, hl⟩ := loadBytes_patched filename hs (htwice ▸ hp)
    rw [hl, htwice]
    exact ⟨rfl, rfl⟩

end Loading

/-- **Loads of any bytes, classified.** A handler on an engine stops at a reference cache that ends
before the spans do, then at a buffer that does, leaving the buffer as it is and running nothing.
Otherwise the covered bytes become those of the reference cache. A buffer without a length field is
then not run. Any other is run once: it is rejected for its header, or gives a report of the script
since there is no source behind the header, or the value of the source there. The buffer that a load
leaves can be loaded again, by the same handler or a new one, with the same result and without a
change. -/
theorem loadBytes_classified (h : CacheHandler) (E : SimulatedEngine) (filename : Text)
    (data : Bytes) (hs : h.Serves E) :
    let reference := E.cacheOf referenceSource
    let spans := h.table.spansFor E.version
    let needed := Patch.needed spans
    let loaded := h.loadBytes engine filename data E
    let result := loaded.1
    let buffer := loaded.2.1
    let runs := loaded.2.2.2.runs
    (reference.length < needed →
      (∃ reason, result = .error (.cache (.reference reason))) ∧ buffer = data ∧ runs = E.runs) ∧
    (needed ≤ reference.length → data.length < needed →
      result = .error (.cache (.invalidBuffer needed data.length)) ∧ buffer = data ∧
        runs = E.runs) ∧
    (needed ≤ reference.length → needed ≤ data.length →
      buffer.length = data.length ∧
      (∀ i, buffer[i]? = if Patch.covered spans i then reference[i]? else data[i]?) ∧
      (buffer.length < 12 →
        result = .error (.cache (.invalidBuffer 12 data.length)) ∧ runs = E.runs) ∧
      (12 ≤ buffer.length →
        runs = E.runs + 1 ∧
        (result = .error (.cacheRejected filename) ↔ E.Rejects buffer) ∧
        ((∃ report, result = .error (.engine (.script report))) ↔
          ¬E.Rejects buffer ∧ Unreadable h.invocation buffer) ∧
        ((∃ value, result = .ok value) ↔
          ¬E.Rejects buffer ∧ ¬Unreadable h.invocation buffer) ∧
        ∀ value, result = .ok value ↔ ¬E.Rejects buffer ∧ Carries h.invocation buffer value)) ∧
    let again := loaded.2.2.1.loadBytes engine filename buffer loaded.2.2.2
    let anew := (new h.table h.invocation).loadBytes engine filename buffer loaded.2.2.2
    again.1 = result ∧ again.2.1 = buffer ∧ anew.1 = result ∧ anew.2.1 = buffer := by
  intro reference spans needed loaded result buffer runs
  refine ⟨?_, ?_, ?_, ?_⟩
  · intro hr
    obtain ⟨reason, hpatch⟩ : ∃ reason, h.patched E data = (.error (.reference reason), data) :=
      Patch.patch_shortReference hr
    obtain ⟨hresult, hrest⟩ := loadBytes_stopped filename hs (congrArg Prod.fst hpatch)
    exact ⟨⟨reason, hresult⟩, hrest⟩
  · intro hr hd
    have hp : (h.patched E data).1 = .error (.invalidBuffer needed data.length) :=
      congrArg Prod.fst (Patch.patch_shortTarget hr hd)
    exact loadBytes_stopped filename hs hp
  · intro hr hd
    have hpatch : h.patched E data = (.ok (), Patch.copySpans reference data spans) :=
      Patch.patch_copies hr hd
    obtain ⟨C, -, -, hruns, hload⟩ := loadBytes_patched filename hs (congrArg Prod.fst hpatch)
    have hlength : (Patch.copySpans reference data spans).length = data.length :=
      Patch.length_copySpans hr hd
    simp only [result, buffer, runs, loaded, hload, hpatch, hruns]
    refine ⟨hlength, Patch.getElem?_copySpans hr hd, ?_, ?_⟩
    · intro hshort
      rw [run_short hshort, hlength]
      exact ⟨rfl, by rw [runCount, if_pos (hlength ▸ hshort), Nat.add_zero]⟩
    · intro hlong
      obtain ⟨hrejected, hreport, hvalue⟩ := run_fst_iff h E filename hlong
      refine ⟨?_, hrejected, hreport, ?_, hvalue⟩
      · rw [runCount, if_neg (Nat.not_lt.2 (hlength ▸ hlong))]
      · simp only [hvalue, exists_and_left, unreadable_iff, not_forall, not_not]
  · obtain ⟨hresult, hbuffer⟩ := loadBytes_again filename hs buffer rfl
    obtain ⟨hserves, htable, hinvocation, hversion, hbuild⟩ := loadBytes_serves filename data hs
    have hsame := loadBytes_congr filename buffer hs hserves htable hinvocation
      hversion hbuild
    have hnew := loadBytes_congr filename buffer hs
      (serves_new h.table h.invocation loaded.2.2.2) rfl rfl hversion hbuild
    exact ⟨hsame.1.trans hresult, hsame.2.trans hbuffer, hnew.1.trans hresult,
      hnew.2.trans hbuffer⟩

/-- a cache of the standard engine with the byte 255 for its source -/
def corrupt : Bytes := (SimulatedEngine.standard.cacheOf "[7]".toList).take 20 ++ [255]

/-- a table that selects byte 29, one behind the reference cache -/
def reaching : LayoutTable := ⟨[⟨.any, [⟨29, 30, by decide, by decide⟩]⟩]⟩

/-- one buffer for each outcome, all loaded on the standard engine -/
theorem loadBytes_classified_each :
    let E := SimulatedEngine.standard
    let load := fun table data => (new table .script).loadBytes engine "a.bin".toList data E
    (∃ reason, (load reaching []).1 = .error (.cache (.reference reason))) ∧
    (load .builtIn [1, 2, 3]).1 = .error (.cache (.invalidBuffer 20 3)) ∧
    (load ⟨[]⟩ [1, 2, 3]).1 = .error (.cache (.invalidBuffer 12 3)) ∧
    (load .builtIn (List.replicate 20 0)).1 = .error (.cacheRejected "a.bin".toList) ∧
    (∃ report, (load .builtIn corrupt).1 = .error (.engine (.script report))) ∧
    (load .builtIn (E.cacheOf "[7]".toList)).1 = .ok (scriptValue "[7]".toList) := by
  intro E load
  have classified := fun table data =>
    loadBytes_classified (new table .script) E "a.bin".toList data (serves_new _ _ _)
  obtain ⟨hreference, -, -, -⟩ := classified reaching []
  obtain ⟨-, htarget, -, -⟩ := classified .builtIn [1, 2, 3]
  obtain ⟨-, -, hfield, -⟩ := classified ⟨[]⟩ [1, 2, 3]
  obtain ⟨-, -, hseal, -⟩ := classified .builtIn (List.replicate 20 0)
  obtain ⟨-, -, hpayload, -⟩ := classified .builtIn corrupt
  obtain ⟨-, -, hvalue, -⟩ := classified .builtIn (E.cacheOf "[7]".toList)
  refine ⟨(hreference (by decide)).1, (htarget (by decide) (by decide)).1, ?_, ?_, ?_, ?_⟩
  · obtain ⟨-, -, hshort, -⟩ := hfield (by decide) (by decide)
    exact (hshort (by decide)).1
  · obtain ⟨-, -, -, hlong⟩ := hseal (by decide) (by decide)
    exact (hlong (by decide)).2.1.2 (by decide)
  · obtain ⟨-, -, -, hlong⟩ := hpayload (by decide) (by decide)
    refine (hlong (by decide)).2.2.1.2 ⟨by decide, unreadable_iff.2 ?_⟩
    intro value hv
    have hdefect := evaluate_eq_ok_iff.2 hv
    cases hdefect
  · obtain ⟨-, -, -, hlong⟩ := hvalue (by decide) (by decide)
    exact ((hlong (by decide)).2.2.2.2 _).2 ⟨by decide, "[7]".toList, by decide, rfl⟩

end CacheHandler

end CodeCache
