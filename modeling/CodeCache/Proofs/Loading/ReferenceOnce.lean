/-
The reference cache is compiled once, and nothing else ever is.

Main result, `run_referenceOnce`. Let one handler patch and load any buffers and files on any engine,
which may fail or answer differently each time.
- The engine is only asked to compile the reference source: once for each buffer until it succeeds
  for the first time, and never after.
- When it fails, its message is the error, the buffer stays as it was and nothing is kept.
- From the first success on, every patch copies from that cache, whatever the engine would say now.
- The engine runs a cache exactly as often as a load came past the patch and the declared length.

The engine is watched while it works (`ScriptEngine.noting`); watching changes nothing else
(`patch_forget`, `loadBytes_forget`). The invariant is `Remembers`: what the handler keeps is the
first cache among the calls so far. A patch is then one equation (`Remembers.patch_eq`), in which
both cases, the cache that is kept and the compile that has to be made, are a reference like any
other (`reference`).
-/
import Mathlib.Tactic
import CodeCache.Loading.CacheHandler

namespace CodeCache

variable {σ : Type}

/-! ## Watching an engine -/

/-- a call of an engine, with what it gave -/
inductive EngineCall where
  | compiled (source : Text) (result : Except EngineError Bytes)
  | ran (script : CachedScript) (result : Except EngineError RunOutcome)

namespace EngineCall

/-- what a compile gave -/
def compile? : EngineCall → Option (Except EngineError Bytes)
  | .compiled _ result => some result
  | .ran _ _ => none

/-- the cache a compile gave -/
def cache? (call : EngineCall) : Option Bytes := call.compile?.bind Except.toOption

/-- a cache was to be run -/
def isRun : EngineCall → Bool
  | .compiled _ _ => false
  | .ran _ _ => true

/-- what the compiles gave, in order -/
def compiles (calls : List EngineCall) : List (Except EngineError Bytes) :=
  calls.filterMap compile?

/-- the first cache that was compiled -/
def first? (calls : List EngineCall) : Option Bytes := calls.findSome? cache?

/-- how often a cache was to be run -/
def runs (calls : List EngineCall) : Nat := calls.countP isRun

theorem first?_append (calls more : List EngineCall) :
    first? (calls ++ more) = (first? calls).or (first? more) := by
  rw [first?, List.findSome?_append]
  rfl

theorem compiles_append (calls more : List EngineCall) :
    compiles (calls ++ more) = compiles calls ++ compiles more := List.filterMap_append

theorem runs_append (calls more : List EngineCall) :
    runs (calls ++ more) = runs calls + runs more := List.countP_append

end EngineCall

/-- the engine, with every call written down -/
def ScriptEngine.noting (E : ScriptEngine σ) : ScriptEngine (σ × List EngineCall) where
  version := fun (s, _) => E.version s
  compile := fun source (s, calls) =>
    let (result, s) := E.compile source s
    (result, s, calls ++ [.compiled source result])
  run := fun script (s, calls) =>
    let (result, s) := E.run script s
    (result, s, calls ++ [.ran script result])

/-! ## Runs of one handler -/

/-- a handler on its way, with the state of its engine and the calls it has made -/
structure LoadRun (σ : Type) where
  handler : CacheHandler
  engine : σ
  calls : List EngineCall

inductive LoadStep (σ : Type) where
  /-- whatever happens to the engine in between -/
  | change (f : σ → σ)
  | patch (data : Bytes)
  | loadBytes (filename : Text) (data : Bytes)
  | load (m : Machine) (path : Text)

/-- the buffer a step patches; none if its file cannot be read -/
def LoadStep.data? : LoadStep σ → Option Bytes
  | .change _ => none
  | .patch data => some data
  | .loadBytes _ data => some data
  | .load m path => (m.read path).toOption

/-- the buffer a step loads -/
def LoadStep.loaded? : LoadStep σ → Option Bytes
  | .patch _ => none
  | t => t.data?

namespace LoadRun

open EngineCall

def start (table : LayoutTable) (invocation : Invocation) (s : σ) : LoadRun σ :=
  ⟨.new table invocation, s, []⟩

def patch (E : ScriptEngine σ) (r : LoadRun σ) (data : Bytes) :
    Except CacheError Unit × Bytes × LoadRun σ :=
  let (result, data, handler, engine, calls) := r.handler.patch E.noting data (r.engine, r.calls)
  (result, data, ⟨handler, engine, calls⟩)

def loadBytes (E : ScriptEngine σ) (r : LoadRun σ) (filename : Text) (data : Bytes) :
    Except CompileError Json × Bytes × LoadRun σ :=
  let (result, data, handler, engine, calls) :=
    r.handler.loadBytes E.noting filename data (r.engine, r.calls)
  (result, data, ⟨handler, engine, calls⟩)

def load (E : ScriptEngine σ) (r : LoadRun σ) (m : Machine) (path : Text) :
    Except CompileError Json × LoadRun σ :=
  let (result, handler, engine, calls) := r.handler.load E.noting m path (r.engine, r.calls)
  (result, ⟨handler, engine, calls⟩)

def step (E : ScriptEngine σ) (r : LoadRun σ) : LoadStep σ → LoadRun σ
  | .change f => { r with engine := f r.engine }
  | .patch data => (r.patch E data).2.2
  | .loadBytes filename data => (r.loadBytes E filename data).2.2
  | .load m path => (r.load E m path).2

def run (E : ScriptEngine σ) (r : LoadRun σ) (steps : List (LoadStep σ)) : LoadRun σ :=
  steps.foldl (step E) r

/-- what the next patch copies from: the first cache there was, or what the engine gives now -/
def reference (E : ScriptEngine σ) (r : LoadRun σ) : Except EngineError Bytes :=
  match first? r.calls with
  | some bytes => .ok bytes
  | none => (E.compile referenceSource r.engine).1

/-- the patch of a buffer succeeds, and the buffer then declares a length -/
def arrives (E : ScriptEngine σ) (r : LoadRun σ) (data : Bytes) : Bool :=
  (r.patch E data).1.isOk && (Header.declaredLength (r.patch E data).2.1).isOk

/-- how many loads of a run come past the patch and the declared length -/
def arrivals (E : ScriptEngine σ) (r : LoadRun σ) : List (LoadStep σ) → Nat
  | [] => 0
  | t :: steps => (if t.loaded?.any (r.arrives E) then 1 else 0) + arrivals E (r.step E t) steps

/-- what holds of a handler throughout: it keeps the first cache among the calls so far -/
structure Remembers (r : LoadRun σ) (table : LayoutTable) : Prop where
  table_eq : r.handler.table = table
  kept : r.handler.kept = first? r.calls
  /-- nothing but the reference source was to be compiled -/
  sources : ∀ source result, .compiled source result ∈ r.calls → source = referenceSource

/-- the run once the reference is there, or could not be had -/
def asked (E : ScriptEngine σ) (r : LoadRun σ) : LoadRun σ :=
  match first? r.calls with
  | some _ => r
  | none =>
    let (result, engine) := E.compile referenceSource r.engine
    ⟨{ r.handler with kept := result.toOption }, engine,
      r.calls ++ [.compiled referenceSource result]⟩

variable {E : ScriptEngine σ} {r : LoadRun σ} {table : LayoutTable} {data : Bytes} {m : Machine}
  {path : Text}

/-! ## One patch, one load -/

theorem asked_of_first {bytes : Bytes} (hfirst : first? r.calls = some bytes) : r.asked E = r := by
  simp only [asked, hfirst]

theorem asked_of_none (hfirst : first? r.calls = none) :
    r.asked E = ⟨{ r.handler with kept := (E.compile referenceSource r.engine).1.toOption },
      (E.compile referenceSource r.engine).2,
      r.calls ++ [.compiled referenceSource (E.compile referenceSource r.engine).1]⟩ := by
  simp only [asked, hfirst]

/-- the compile is written down if it has to be made -/
theorem noting_reference (E : ScriptEngine σ) (kept : Option Bytes) (s : σ)
    (calls : List EngineCall) :
    E.noting.reference kept (s, calls) =
      ((E.reference kept s).1, (E.reference kept s).2.1, (E.reference kept s).2.2,
        match kept with
        | some _ => calls
        | none => calls ++ [.compiled referenceSource (E.compile referenceSource s).1]) := by
  cases kept with
  | some bytes => rfl
  | none =>
    have hnoting : E.noting.compile referenceSource (s, calls) =
        ((E.compile referenceSource s).1, (E.compile referenceSource s).2,
          calls ++ [.compiled referenceSource (E.compile referenceSource s).1]) := rfl
    simp only [ScriptEngine.reference, hnoting]
    rcases E.compile referenceSource s with ⟨_ | bytes, s'⟩ <;> rfl

/-- a reference that was kept, or what compiling one gives -/
theorem Remembers.reference_eq (h : r.Remembers table) :
    E.reference r.handler.kept r.engine =
      ((r.reference E).mapError fun e => CacheError.reference e.message,
        (r.asked E).handler.kept, (r.asked E).engine) := by
  cases hfirst : first? r.calls with
  | some bytes =>
    simp only [asked_of_first hfirst, LoadRun.reference, h.kept, hfirst]
    rfl
  | none =>
    simp only [asked_of_none hfirst, LoadRun.reference, h.kept, hfirst, ScriptEngine.reference]
    rcases E.compile referenceSource r.engine with ⟨_ | bytes, engine⟩ <;> rfl

/-- **A patch computed**: a patch by the reference, after which the reference is known if it can be
had -/
theorem Remembers.patch_eq (h : r.Remembers table) (data : Bytes) :
    r.patch E data =
      let reference := (r.reference E).mapError fun e => CacheError.reference e.message
      let patched := Patch.patch table (E.version r.engine) reference data
      (patched.1, patched.2, r.asked E) := by
  simp only [LoadRun.patch, CacheHandler.patch, noting_reference, h.reference_eq, h.table_eq]
  refine Prod.ext rfl (Prod.ext rfl ?_)
  obtain ⟨⟨_, invocation, kept⟩, engine, calls⟩ := r
  obtain rfl : _ = table := h.table_eq
  obtain rfl : kept = first? calls := h.kept
  cases hfirst : first? calls with
  | some bytes => simp only [LoadRun.asked, hfirst]
  | none => simp only [LoadRun.asked, hfirst]

/-- watching changes nothing else -/
theorem patch_forget (E : ScriptEngine σ) (r : LoadRun σ) (data : Bytes) :
    ((r.patch E data).1, (r.patch E data).2.1, (r.patch E data).2.2.handler,
      (r.patch E data).2.2.engine) = r.handler.patch E data r.engine := by
  simp only [LoadRun.patch, CacheHandler.patch, noting_reference]
  rfl

/-- a load is a patch, and a run if the patch succeeds and the buffer declares a length -/
theorem loadBytes_eq (E : ScriptEngine σ) (r : LoadRun σ) (filename : Text) (data : Bytes) :
    r.loadBytes E filename data =
      match r.patch E data with
      | (.error e, buffer, r') => (.error (.cache e), buffer, r')
      | (.ok (), buffer, r') =>
        match Header.declaredLength buffer with
        | .error e => (.error (.cache e), buffer, r')
        | .ok length =>
          let script : CachedScript :=
            ⟨filename, Placeholder.source length, buffer, r'.handler.invocation⟩
          let outcome := E.run script r'.engine
          (CacheHandler.answer filename outcome.1, buffer,
            ⟨r'.handler, outcome.2, r'.calls ++ [.ran script outcome.1]⟩) := by
  simp only [LoadRun.loadBytes, LoadRun.patch, CacheHandler.loadBytes]
  rcases r.handler.patch E.noting data (r.engine, r.calls) with
    ⟨result, buffer, handler, engine, calls⟩
  cases result with
  | error e => rfl
  | ok =>
    simp only [CacheHandler.run]
    cases Header.declaredLength buffer <;> rfl

theorem loadBytes_forget (E : ScriptEngine σ) (r : LoadRun σ) (filename : Text) (data : Bytes) :
    ((r.loadBytes E filename data).1, (r.loadBytes E filename data).2.1,
      (r.loadBytes E filename data).2.2.handler, (r.loadBytes E filename data).2.2.engine) =
      r.handler.loadBytes E filename data r.engine := by
  rw [loadBytes_eq, CacheHandler.loadBytes, ← patch_forget]
  rcases r.patch E data with ⟨_ | _, buffer, r'⟩
  · rfl
  · simp only [CacheHandler.run]
    cases Header.declaredLength buffer <;> rfl

theorem load_of_error {e : OsError} (h : m.read path = .error e) :
    r.load E m path = (.error (.file .read path e), r) := by
  simp only [load, CacheHandler.load, h]

theorem load_of_ok (h : m.read path = .ok data) :
    r.load E m path = ((r.loadBytes E path data).1, (r.loadBytes E path data).2.2) := by
  simp only [load, CacheHandler.load, h, loadBytes]

theorem load_forget (E : ScriptEngine σ) (r : LoadRun σ) (m : Machine) (path : Text) :
    ((r.load E m path).1, (r.load E m path).2.handler, (r.load E m path).2.engine) =
      r.handler.load E m path r.engine := by
  cases hread : m.read path with
  | error e => simp only [load_of_error hread, CacheHandler.load, hread]
  | ok data => simp only [load_of_ok hread, CacheHandler.load, hread, ← loadBytes_forget]

/-- the buffer is loaded as it was patched -/
theorem loadBytes_buffer (E : ScriptEngine σ) (r : LoadRun σ) (filename : Text) (data : Bytes) :
    (r.loadBytes E filename data).2.1 = (r.patch E data).2.1 := by
  rw [loadBytes_eq]
  rcases r.patch E data with ⟨_ | _, buffer, r'⟩
  · rfl
  · simp only
    cases Header.declaredLength buffer <;> rfl

/-- a load that arrives is a patch with a run behind it, any other is the patch -/
theorem Remembers.loadBytes_after (h : r.Remembers table) (filename : Text) (data : Bytes) :
    r.arrives E data = false ∧ (r.loadBytes E filename data).2.2 = r.asked E ∨
      r.arrives E data = true ∧ ∃ engine script outcome,
        (r.loadBytes E filename data).2.2 =
          ⟨(r.asked E).handler, engine, (r.asked E).calls ++ [.ran script outcome]⟩ := by
  have hpatch := h.patch_eq (E := E) data
  rw [loadBytes_eq, arrives, hpatch]
  dsimp only
  generalize Patch.patch table (E.version r.engine) _ data = patched
  rcases patched with ⟨e | _, buffer⟩
  · exact .inl ⟨rfl, rfl⟩
  · dsimp only
    cases Header.declaredLength buffer with
    | error e => exact .inl ⟨rfl, rfl⟩
    | ok length => exact .inr ⟨rfl, _, _, _, rfl⟩

/-! ## Runs -/

/-- **All that a step can do**: leave handler and calls alone if there is no buffer, and otherwise
ask for the reference, with a run behind that for a load that arrives -/
theorem Remembers.step_cases (h : r.Remembers table) (t : LoadStep σ) :
    (t.data? = none ∧ t.loaded?.any (r.arrives E) = false ∧
      ∃ engine, r.step E t = ⟨r.handler, engine, r.calls⟩) ∨
    (t.data?.isSome ∧ t.loaded?.any (r.arrives E) = false ∧ r.step E t = r.asked E) ∨
    (t.data?.isSome ∧ t.loaded?.any (r.arrives E) = true ∧ ∃ engine script outcome,
      r.step E t = ⟨(r.asked E).handler, engine, (r.asked E).calls ++ [.ran script outcome]⟩) := by
  cases t with
  | change f => exact .inl ⟨rfl, rfl, _, rfl⟩
  | patch data =>
    refine .inr (.inl ⟨rfl, rfl, ?_⟩)
    rw [step, h.patch_eq]
  | loadBytes filename data =>
    right
    rcases h.loadBytes_after (E := E) filename data with ⟨harrives, hr⟩ | ⟨harrives, hr⟩
    · exact .inl ⟨rfl, harrives, hr⟩
    · exact .inr ⟨rfl, harrives, hr⟩
  | load m path =>
    cases hread : m.read path with
    | error e =>
      left
      refine ⟨by rw [LoadStep.data?, hread]; rfl, ?_, r.engine, ?_⟩
      · simp only [LoadStep.loaded?, LoadStep.data?, hread]
        rfl
      · rw [step, load_of_error hread]
    | ok data =>
      right
      have hdata : (LoadStep.load m path : LoadStep σ).data? = some data := by
        rw [LoadStep.data?, hread]
        rfl
      have hloaded : (LoadStep.load m path : LoadStep σ).loaded? = some data := hdata
      have hstep : r.step E (.load m path) = (r.loadBytes E path data).2.2 := by
        rw [step, load_of_ok hread]
      rw [hdata, hloaded, hstep]
      rcases h.loadBytes_after (E := E) path data with ⟨harrives, hr⟩ | ⟨harrives, hr⟩
      · exact .inl ⟨rfl, harrives, hr⟩
      · exact .inr ⟨rfl, harrives, hr⟩

theorem remembers_start (table : LayoutTable) (invocation : Invocation) (s : σ) :
    (start table invocation s).Remembers table := by
  refine ⟨rfl, rfl, ?_⟩
  intro source result hmem
  cases hmem

theorem Remembers.asked (h : r.Remembers table) : (r.asked E).Remembers table := by
  cases hfirst : first? r.calls with
  | some bytes =>
    rw [asked_of_first hfirst]
    exact h
  | none =>
    rw [asked_of_none hfirst]
    refine ⟨h.table_eq, ?_, ?_⟩
    · dsimp only
      rw [first?_append, hfirst, Option.none_or]
      cases (E.compile referenceSource r.engine).1 <;> rfl
    · intro source result hmem
      rcases List.mem_append.1 hmem with hmem | hmem
      · exact h.sources source result hmem
      · cases List.mem_singleton.1 hmem
        rfl

/-- neither the engine's state nor a run matters to what is kept -/
theorem Remembers.ran (h : r.Remembers table) (engine : σ) (script : CachedScript)
    (outcome : Except EngineError RunOutcome) :
    Remembers ⟨r.handler, engine, r.calls ++ [.ran script outcome]⟩ table := by
  refine ⟨h.table_eq, ?_, ?_⟩
  · rw [first?_append]
    exact h.kept.trans (Option.or_none).symm
  · intro source result hmem
    rcases List.mem_append.1 hmem with hmem | hmem
    · exact h.sources source result hmem
    · cases List.mem_singleton.1 hmem

theorem Remembers.step (h : r.Remembers table) (t : LoadStep σ) :
    (r.step E t).Remembers table := by
  rcases h.step_cases (E := E) t with ⟨-, -, engine, hr⟩ | ⟨-, -, hr⟩ |
    ⟨-, -, engine, script, outcome, hr⟩
  · rw [hr]
    exact ⟨h.table_eq, h.kept, h.sources⟩
  · rw [hr]
    exact h.asked
  · rw [hr]
    exact h.asked.ran engine script outcome

theorem Remembers.run (h : r.Remembers table) (steps : List (LoadStep σ)) :
    (r.run E steps).Remembers table := by
  induction steps generalizing r with
  | nil => exact h
  | cons t steps ih => exact ih (h.step t)

/-- one compile for a buffer as long as there is no cache yet -/
theorem compiles_asked (E : ScriptEngine σ) (r : LoadRun σ) :
    compiles (r.asked E).calls = compiles r.calls ++
      if first? r.calls = none then [(E.compile referenceSource r.engine).1] else [] := by
  cases hfirst : first? r.calls with
  | some bytes => rw [asked_of_first hfirst, if_neg (Option.some_ne_none _), List.append_nil]
  | none =>
    rw [asked_of_none hfirst, if_pos rfl, compiles_append]
    rfl

theorem runs_asked (E : ScriptEngine σ) (r : LoadRun σ) :
    runs (r.asked E).calls = runs r.calls := by
  cases hfirst : first? r.calls with
  | some bytes => rw [asked_of_first hfirst]
  | none =>
    rw [asked_of_none hfirst, runs_append]
    rfl

theorem Remembers.compiles_step (h : r.Remembers table) (t : LoadStep σ) :
    compiles (r.step E t).calls = compiles r.calls ++
      if t.data?.isSome ∧ first? r.calls = none then
        [(E.compile referenceSource r.engine).1]
      else [] := by
  rcases h.step_cases (E := E) t with ⟨hdata, -, engine, hr⟩ | ⟨hdata, -, hr⟩ |
    ⟨hdata, -, engine, script, outcome, hr⟩
  · rw [hr, hdata, if_neg (fun hand => Bool.false_ne_true hand.1), List.append_nil]
  · rw [hr, compiles_asked]
    simp only [hdata, true_and]
  · rw [hr, compiles_append, compiles_asked, List.append_assoc]
    simp only [hdata, true_and]
    exact congrArg _ (List.append_nil _)

theorem Remembers.runs_step (h : r.Remembers table) (t : LoadStep σ) :
    runs (r.step E t).calls =
      runs r.calls + if t.loaded?.any (r.arrives E) then 1 else 0 := by
  rcases h.step_cases (E := E) t with ⟨-, hloaded, engine, hr⟩ | ⟨-, hloaded, hr⟩ |
    ⟨-, hloaded, engine, script, outcome, hr⟩
  · rw [hr, hloaded]
    rfl
  · rw [hr, hloaded, runs_asked]
    rfl
  · rw [hr, hloaded, runs_append, runs_asked]
    rfl

theorem Remembers.runs_run (h : r.Remembers table) (steps : List (LoadStep σ)) :
    runs (r.run E steps).calls = runs r.calls + arrivals E r steps := by
  induction steps generalizing r with
  | nil => rfl
  | cons t steps ih =>
    calc runs ((r.step E t).run E steps).calls
        = runs (r.step E t).calls + arrivals E (r.step E t) steps := ih (h.step t)
      _ = runs r.calls + ((if t.loaded?.any (r.arrives E) then 1 else 0) +
            arrivals E (r.step E t) steps) := by rw [h.runs_step, Nat.add_assoc]

/-- the first cache stays the first -/
theorem Remembers.first?_step (h : r.Remembers table) {bytes : Bytes}
    (hfirst : first? r.calls = some bytes) (t : LoadStep σ) :
    first? (r.step E t).calls = some bytes := by
  rcases h.step_cases (E := E) t with ⟨-, -, engine, hr⟩ | ⟨-, -, hr⟩ |
    ⟨-, -, engine, script, outcome, hr⟩
  · rw [hr, hfirst]
  · rw [hr, asked_of_first hfirst, hfirst]
  · rw [hr, asked_of_first hfirst, first?_append, hfirst, Option.some_or]

theorem Remembers.first?_run (h : r.Remembers table) {bytes : Bytes}
    (hfirst : first? r.calls = some bytes) (steps : List (LoadStep σ)) :
    first? (r.run E steps).calls = some bytes := by
  induction steps generalizing r with
  | nil => exact hfirst
  | cons t steps ih => exact ih (h.step t) (h.first?_step hfirst t)

theorem reference_of_first {bytes : Bytes} (hfirst : first? r.calls = some bytes) :
    r.reference E = .ok bytes := by
  simp only [reference, hfirst]

theorem reference_of_none (hfirst : first? r.calls = none) :
    r.reference E = (E.compile referenceSource r.engine).1 := by
  simp only [reference, hfirst]

/-- a reference that cannot be had is the error, and nothing is kept -/
theorem Remembers.patch_of_error (h : r.Remembers table) {e : EngineError}
    (hfirst : first? r.calls = none)
    (hcompile : (E.compile referenceSource r.engine).1 = .error e) (data : Bytes) :
    r.patch E data = (.error (.reference e.message), data,
      ⟨r.handler, (E.compile referenceSource r.engine).2,
        r.calls ++ [.compiled referenceSource (.error e)]⟩) := by
  have hkept : { r.handler with kept := none } = r.handler := by
    rw [← hfirst, ← h.kept]
  rw [h.patch_eq, reference_of_none hfirst, asked_of_none hfirst, hcompile]
  simp only [Except.mapError, Patch.patch, Except.toOption, hkept]

/-- a reference that can be had is what the buffer is patched from, and it is kept -/
theorem Remembers.patch_of_ok (h : r.Remembers table) {bytes : Bytes}
    (hreference : r.reference E = .ok bytes) (data : Bytes) :
    ((r.patch E data).1, (r.patch E data).2.1) =
        Patch.patch table (E.version r.engine) (.ok bytes) data ∧
      first? (r.patch E data).2.2.calls = some bytes := by
  rw [h.patch_eq, hreference]
  refine ⟨rfl, ?_⟩
  cases hfirst : first? r.calls with
  | some kept =>
    rw [reference_of_first hfirst] at hreference
    cases hreference
    rw [asked_of_first hfirst, hfirst]
  | none =>
    rw [reference_of_none hfirst] at hreference
    rw [asked_of_none hfirst, hreference, first?_append, hfirst]
    rfl

/-- **The reference is compiled once.** At every point of every run of a fresh handler, on an engine
that may fail or answer differently each time: nothing but the reference source was ever compiled;
whatever is patched or loaded next compiles it exactly if no compile has succeeded yet and the buffer
can be read. A compile that fails is the error, and neither the buffer nor the handler changes. One
that succeeds is what this and every later buffer is patched from. A cache was run as often as a load
came past the patch and the declared length. -/
theorem run_referenceOnce (E : ScriptEngine σ) (table : LayoutTable) (invocation : Invocation)
    (s : σ) (steps : List (LoadStep σ)) :
    let r := (start table invocation s).run E steps
    (∀ data, ((r.patch E data).1, (r.patch E data).2.1, (r.patch E data).2.2.handler,
      (r.patch E data).2.2.engine) = r.handler.patch E data r.engine) ∧
    (∀ filename data, ((r.loadBytes E filename data).1, (r.loadBytes E filename data).2.1,
      (r.loadBytes E filename data).2.2.handler, (r.loadBytes E filename data).2.2.engine) =
        r.handler.loadBytes E filename data r.engine) ∧
    (∀ m path, ((r.load E m path).1, (r.load E m path).2.handler, (r.load E m path).2.engine) =
      r.handler.load E m path r.engine) ∧
    (∀ source result, .compiled source result ∈ r.calls → source = referenceSource) ∧
    (∀ t, compiles (r.step E t).calls = compiles r.calls ++
      if t.data?.isSome ∧ first? r.calls = none then
        [(E.compile referenceSource r.engine).1]
      else []) ∧
    (∀ e, first? r.calls = none → (E.compile referenceSource r.engine).1 = .error e →
      let failed : LoadRun σ := ⟨r.handler, (E.compile referenceSource r.engine).2,
        r.calls ++ [.compiled referenceSource (.error e)]⟩
      (∀ data, r.patch E data = (.error (.reference e.message), data, failed)) ∧
      (∀ filename data, r.loadBytes E filename data =
        (.error (.cache (.reference e.message)), data, failed)) ∧
      ∀ m path data, m.read path = .ok data →
        r.load E m path = (.error (.cache (.reference e.message)), failed)) ∧
    (∀ bytes, r.reference E = .ok bytes → ∀ data,
      ((r.patch E data).1, (r.patch E data).2.1) =
          Patch.patch table (E.version r.engine) (.ok bytes) data ∧
        first? (r.patch E data).2.2.calls = some bytes ∧
        ∀ filename, (r.loadBytes E filename data).2.1 = (r.patch E data).2.1) ∧
    (∀ bytes, first? r.calls = some bytes → ∀ later,
      first? (r.run E later).calls = some bytes ∧ (r.run E later).reference E = .ok bytes) ∧
    runs r.calls = arrivals E (start table invocation s) steps := by
  intro r
  have hstart : (start table invocation s).Remembers table := remembers_start table invocation s
  have h : r.Remembers table := hstart.run steps
  refine ⟨?_, ?_, ?_, ?_, ?_, ?_, ?_, ?_, ?_⟩
  · intro data
    exact patch_forget E r data
  · intro filename data
    exact loadBytes_forget E r filename data
  · intro m path
    exact load_forget E r m path
  · exact h.sources
  · intro t
    exact h.compiles_step t
  · intro e hfirst hcompile failed
    have hpatch : ∀ data, r.patch E data = (.error (.reference e.message), data, failed) :=
      fun data => h.patch_of_error hfirst hcompile data
    have hload : ∀ filename data, r.loadBytes E filename data =
        (.error (.cache (.reference e.message)), data, failed) := by
      intro filename data
      rw [loadBytes_eq, hpatch]
    refine ⟨hpatch, hload, ?_⟩
    intro m path data hread
    rw [load_of_ok hread, hload]
  · intro bytes hreference data
    obtain ⟨hpatch, hfirst⟩ := h.patch_of_ok hreference data
    exact ⟨hpatch, hfirst, fun filename => loadBytes_buffer E r filename data⟩
  · intro bytes hfirst later
    have hlater := h.first?_run (E := E) hfirst later
    exact ⟨hlater, reference_of_first hlater⟩
  · have hruns := hstart.runs_run (E := E) steps
    rw [hruns]
    exact Nat.zero_add _

/-- the first two compiles fail and every later one gives other bytes; caches are refused, and the
version goes up with every call -/
def fickleEngine : ScriptEngine Nat where
  version := fun n => ⟨UInt32.ofNat (18 + n), 0, 0⟩
  compile := fun _ n =>
    (if n < 2 then .error (.script "busy") else .ok (List.replicate 24 (UInt8.ofNat n)), n + 1)
  run := fun _ n => (.ok .rejected, n + 1)

def zeros : Bytes := List.replicate 20 0

/-- two failures, a success for a buffer that is too short, a load that comes through, and a file that
is not there -/
def fickleSteps : List (LoadStep Nat) :=
  [.patch zeros, .loadBytes "/a.bin" zeros, .loadBytes "/a.bin" [], .loadBytes "/a.bin" zeros,
    .load ⟨.empty, [], [], []⟩ "/gone"]

def fickleRun : LoadRun Nat := (start .builtIn .script 0).run fickleEngine fickleSteps

/-- the bytes of the third compile stay the reference, although the engine would give others by now -/
theorem run_referenceOnce_fickle :
    compiles fickleRun.calls =
      [.error (.script "busy"), .error (.script "busy"), .ok (List.replicate 24 2)] ∧
    runs fickleRun.calls = 1 ∧
    (start .builtIn .script 0).patch fickleEngine zeros =
      (.error (.reference (EngineError.script "busy").message), zeros,
        ⟨.new .builtIn .script, 1, [.compiled referenceSource (.error (.script "busy"))]⟩) ∧
    (fickleRun.loadBytes fickleEngine "/b.bin" zeros).2.1 =
      List.replicate 12 0 ++ List.replicate 8 2 ∧
    (fickleRun.run fickleEngine [.change (· + 5), .patch zeros]).reference fickleEngine =
      .ok (List.replicate 24 2) := by
  obtain ⟨-, -, -, -, -, -, hpatch, hlater, hruns⟩ :=
    run_referenceOnce fickleEngine .builtIn .script 0 fickleSteps
  obtain ⟨-, -, -, -, -, hfailed, -⟩ := run_referenceOnce fickleEngine .builtIn .script 0 []
  have hbuffer := hpatch (List.replicate 24 2) rfl zeros
  refine ⟨rfl, hruns, (hfailed (.script "busy") rfl rfl).1 zeros, ?_,
    (hlater (List.replicate 24 2) rfl [.change (· + 5), .patch zeros]).2⟩
  exact (hbuffer.2.2 "/b.bin").trans (congrArg Prod.snd hbuffer.1)

end LoadRun

end CodeCache
