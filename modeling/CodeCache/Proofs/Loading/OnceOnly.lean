/-
Module tables over whole runs: files change, handlers come and go, paths are required in any order.

Main result, `run_onceOnly`: at every point of every run that starts with an empty table, what
`require` and `isLoaded` do is read off the history of the run, that is off the registrations and the
handler calls so far.
- A canonical path without a successful load: exactly one call, of the handler registered last for
  its extension; or the error for an unhandled extension, and no call.
- A canonical path with one: the value of the first, now and after any further run, and no call.
- A path that leads nowhere, and an extension that is rejected, leave everything as it is.

The history is written by `ModuleLoading.noting`, which wraps the loading a table works with; the
invariant `Follows` says that slots and handlers are those of the history. A slot that is there but
empty is no value, so the slots themselves are never compared.

A handler shared by several extensions, or with anything else, is a name in `η` for a state in `ω`.
-/
import CodeCache.Proofs.Loading.Tables

namespace CodeCache

variable {η ω : Type}

/-! ## Histories -/

/-- a call of a handler: the state it was in, the path, what it gave, and the state it was left in -/
structure HandlerCall (η : Type) where
  handler : η
  path : Text
  result : Except CompileError Json
  after : η

inductive TableEvent (η : Type) where
  /-- a handler was accepted for an extension -/
  | registered (extension : Text) (handler : η)
  | called (call : HandlerCall η)

namespace TableEvent

/-- the handler an event leaves at an extension -/
def handler? (extension : Text) : TableEvent η → Option η
  | .registered given handler =>
    if (Extension.normalize given).toOption = some extension then some handler else none
  | .called call => if ModuleTable.route call.path = extension then some call.after else none

/-- the value an event loads a path with -/
def value? (path : Text) : TableEvent η → Option Json
  | .registered .. => none
  | .called call => if call.path = path then call.result.toOption else none

end TableEvent

/-- what happened to a table, in order -/
structure TableHistory (η : Type) where
  events : List (TableEvent η)

namespace TableHistory

def push (history : TableHistory η) (event : TableEvent η) : TableHistory η :=
  ⟨history.events ++ [event]⟩

/-- the handler registered last for an extension, as its last call left it -/
def handler? (history : TableHistory η) (extension : Text) : Option η :=
  history.events.reverse.findSome? (·.handler? extension)

/-- the value of the first load of a path that succeeded -/
def value? (history : TableHistory η) (path : Text) : Option Json :=
  history.events.findSome? (·.value? path)

theorem handler?_push (history : TableHistory η) (event : TableEvent η) (extension : Text) :
    (history.push event).handler? extension =
      (event.handler? extension).or (history.handler? extension) := by
  simp only [handler?, push, List.reverse_append, List.findSome?_append, List.reverse_singleton,
    List.findSome?_singleton]

theorem value?_push (history : TableHistory η) (event : TableEvent η) (path : Text) :
    (history.push event).value? path = (history.value? path).or (event.value? path) := by
  simp only [value?, push, List.findSome?_append, List.findSome?_singleton]

theorem value?_isSome_iff (history : TableHistory η) (path : Text) :
    (history.value? path).isSome ↔
      ∃ call, .called call ∈ history.events ∧ call.path = path ∧ ∃ v, call.result = .ok v := by
  simp only [value?, List.findSome?_isSome_iff]
  constructor
  · rintro ⟨event, hmem, hv⟩
    cases event with
    | registered given handler => cases hv
    | called call =>
      simp only [TableEvent.value?] at hv
      split_ifs at hv with hp
      · cases hr : call.result with
        | error e => rw [hr] at hv; cases hv
        | ok v => exact ⟨call, hmem, hp, v, hr⟩
      · cases hv
  · rintro ⟨call, hmem, hp, v, hr⟩
    refine ⟨.called call, hmem, ?_⟩
    simp only [TableEvent.value?, if_pos hp, hr]
    rfl

end TableHistory

/-- loading that writes its calls down -/
def ModuleLoading.noting (L : ModuleLoading η ω) : ModuleLoading η (ω × TableHistory η) where
  canonical := fun (w, _) => L.canonical w
  load := fun handler path (w, history) =>
    let (result, after, w) := L.load handler path w
    (result, after, w, history.push (.called ⟨handler, path, result, after⟩))

/-! ## Runs -/

/-- a table on its way, with what it loads from and what has happened to it -/
structure TableRun (η ω : Type) where
  table : ModuleTable η
  world : ω
  history : TableHistory η

inductive TableStep (η ω : Type) where
  /-- whatever happens to the files in between -/
  | change (f : ω → ω)
  | register (extension : Text) (handler : η)
  | require (path : Text)
  | isLoaded (path : Text)

namespace TableRun

def start (w : ω) : TableRun η ω := ⟨.empty, w, ⟨[]⟩⟩

def register (s : TableRun η ω) (extension : Text) (handler : η) :
    Except OptionsError Unit × TableRun η ω :=
  match s.table.register extension handler with
  | .error e => (.error e, s)
  | .ok table => (.ok (), ⟨table, s.world, s.history.push (.registered extension handler)⟩)

def require (L : ModuleLoading η ω) (s : TableRun η ω) (path : Text) :
    Except CompileError Json × TableRun η ω :=
  let (result, table, world, history) := s.table.require L.noting path (s.world, s.history)
  (result, ⟨table, world, history⟩)

def isLoaded (L : ModuleLoading η ω) (s : TableRun η ω) (path : Text) : Bool :=
  s.table.isLoaded L path s.world

def step (L : ModuleLoading η ω) (s : TableRun η ω) : TableStep η ω → TableRun η ω
  | .change f => { s with world := f s.world }
  | .register extension handler => (s.register extension handler).2
  | .require path => (s.require L path).2
  | .isLoaded _ => s

def run (L : ModuleLoading η ω) (s : TableRun η ω) (steps : List (TableStep η ω)) :
    TableRun η ω := steps.foldl (step L) s

/-- slots and handlers are those of the history -/
structure Follows (s : TableRun η ω) : Prop where
  values : ∀ c, s.table.value? c = s.history.value? c
  handlers : ∀ extension, s.table.handlers.lookup extension = s.history.handler? extension

theorem follows_start (w : ω) : Follows (start w : TableRun η ω) :=
  ⟨fun _ => rfl, fun _ => rfl⟩

variable {L : ModuleLoading η ω} {s : TableRun η ω} {path c : Text}

theorem noting_canonical (L : ModuleLoading η ω) (w : ω) (history : TableHistory η) (path : Text) :
    L.noting.canonical (w, history) path = L.canonical w path := rfl

/-- writing the calls down changes nothing else -/
theorem require_forget (L : ModuleLoading η ω) (s : TableRun η ω) (path : Text) :
    ((s.require L path).1, (s.require L path).2.table, (s.require L path).2.world) =
      s.table.require L path s.world := by
  have hn := noting_canonical L s.world s.history path
  simp only [require]
  cases hc : L.canonical s.world path with
  | error e =>
    rw [ModuleTable.require_of_error hc, ModuleTable.require_of_error (hn.trans hc)]
  | ok c =>
    cases hv : s.table.value? c with
    | some v =>
      rw [ModuleTable.require_of_value hc hv, ModuleTable.require_of_value (hn.trans hc) hv]
    | none =>
      cases hh : s.table.handlers.lookup (ModuleTable.route c) with
      | none =>
        rw [ModuleTable.require_unhandled hc hv hh,
          ModuleTable.require_unhandled (hn.trans hc) hv hh]
      | some handler =>
        rw [ModuleTable.require_call hc hv hh, ModuleTable.require_call (hn.trans hc) hv hh]
        rfl

theorem require_of_error {e : OsError} (hc : L.canonical s.world path = .error e) :
    s.require L path = (.error (.file .resolve path e), s) := by
  have hn := noting_canonical L s.world s.history path
  simp only [require, ModuleTable.require_of_error (hn.trans hc)]

theorem Follows.require_of_value (h : s.Follows) {v : Json}
    (hc : L.canonical s.world path = .ok c) (hv : s.history.value? c = some v) :
    s.require L path = (.ok v, s) := by
  have hn := noting_canonical L s.world s.history path
  simp only [require, ModuleTable.require_of_value (hn.trans hc) ((h.values c).trans hv)]

theorem Follows.require_unhandled (h : s.Follows) (hc : L.canonical s.world path = .ok c)
    (hv : s.history.value? c = none) (hh : s.history.handler? (ModuleTable.route c) = none) :
    s.require L path = (.error (.unhandledExtension (ModuleTable.route c)), s) := by
  have hn := noting_canonical L s.world s.history path
  simp only [require, ModuleTable.require_unhandled (hn.trans hc) ((h.values c).trans hv)
    ((h.handlers _).trans hh)]

theorem Follows.require_call (h : s.Follows) {handler : η}
    (hc : L.canonical s.world path = .ok c) (hv : s.history.value? c = none)
    (hh : s.history.handler? (ModuleTable.route c) = some handler) :
    s.require L path =
      let (result, after, w) := L.load handler c s.world
      (result, ⟨s.table.afterCall c result after, w,
        s.history.push (.called ⟨handler, c, result, after⟩)⟩) := by
  have hn := noting_canonical L s.world s.history path
  simp only [require, ModuleTable.require_call (hn.trans hc) ((h.values c).trans hv)
    ((h.handlers _).trans hh)]
  rfl

/-- all that requiring a path can do: nothing, or one call for a path without a value -/
theorem require_after (L : ModuleLoading η ω) (s : TableRun η ω) (path : Text) :
    (s.require L path).2 = s ∨
      ∃ c handler result after w, s.table.value? c = none ∧
        (s.require L path).2 = ⟨s.table.afterCall c result after, w,
          s.history.push (.called ⟨handler, c, result, after⟩)⟩ := by
  have hn := noting_canonical L s.world s.history path
  simp only [require]
  cases hc : L.canonical s.world path with
  | error e =>
    left
    rw [ModuleTable.require_of_error (hn.trans hc)]
  | ok c =>
    cases hv : s.table.value? c with
    | some v =>
      left
      rw [ModuleTable.require_of_value (hn.trans hc) hv]
    | none =>
      cases hh : s.table.handlers.lookup (ModuleTable.route c) with
      | none =>
        left
        rw [ModuleTable.require_unhandled (hn.trans hc) hv hh]
      | some handler =>
        right
        rw [ModuleTable.require_call (hn.trans hc) hv hh]
        exact ⟨c, handler, _, _, _, hv, rfl⟩

/-! ## The invariant -/

theorem Follows.register (h : s.Follows) (extension : Text) (handler : η) :
    (s.register extension handler).2.Follows := by
  unfold TableRun.register ModuleTable.register
  cases hn : Extension.normalize extension with
  | error e => exact h
  | ok normal =>
    constructor
    · intro c
      simp only [Except.map, ModuleTable.value?_setHandler, TableHistory.value?_push,
        TableEvent.value?, Option.or_none]
      exact h.values c
    · intro other
      simp only [Except.map, ModuleTable.handlers_setHandler, TableHistory.handler?_push,
        TableEvent.handler?, hn, Except.toOption, Option.some.injEq]
      by_cases ho : other = normal
      · rw [if_pos ho, if_pos ho.symm]
        rfl
      · rw [if_neg ho, if_neg (Ne.symm ho)]
        exact h.handlers other

theorem Follows.require (h : s.Follows) (path : Text) : (s.require L path).2.Follows := by
  rcases require_after L s path with hs | ⟨c, handler, result, after, w, hv, hs⟩
  · rw [hs]
    exact h
  · rw [hs]
    constructor
    · intro other
      simp only [ModuleTable.value?_afterCall hv, h.values, TableHistory.value?_push,
        TableEvent.value?]
    · intro extension
      simp only [ModuleTable.handlers_afterCall, h.handlers, TableHistory.handler?_push,
        TableEvent.handler?]

theorem Follows.step (h : s.Follows) (t : TableStep η ω) : (s.step L t).Follows := by
  cases t with
  | change f => exact ⟨h.values, h.handlers⟩
  | register extension handler => exact h.register extension handler
  | require path => exact h.require path
  | isLoaded path => exact h

theorem Follows.run (h : s.Follows) (steps : List (TableStep η ω)) : (s.run L steps).Follows := by
  induction steps generalizing s with
  | nil => exact h
  | cons t steps ih => exact ih (h.step t)

/-! ## What stays -/

theorem events_step (L : ModuleLoading η ω) (s : TableRun η ω) (t : TableStep η ω) :
    s.history.events <+: (s.step L t).history.events := by
  cases t with
  | change f => exact List.prefix_refl _
  | register extension handler =>
    simp only [step, register]
    cases s.table.register extension handler with
    | error e => exact List.prefix_refl _
    | ok table => exact List.prefix_append _ _
  | require path =>
    rcases require_after L s path with hs | ⟨c, handler, result, after, w, -, hs⟩
    · rw [step, hs]
    · rw [step, hs]
      exact List.prefix_append _ _
  | isLoaded path => exact List.prefix_refl _

theorem events_run (L : ModuleLoading η ω) (s : TableRun η ω) (steps : List (TableStep η ω)) :
    s.history.events <+: (s.run L steps).history.events := by
  induction steps generalizing s with
  | nil => exact List.prefix_refl _
  | cons t steps ih => exact (events_step L s t).trans (ih (s.step L t))

/-- a later load does not replace the first value -/
theorem value?_run {v : Json} (hv : s.history.value? c = some v) (steps : List (TableStep η ω)) :
    (s.run L steps).history.value? c = some v := by
  obtain ⟨later, hlater⟩ := events_run L s steps
  rw [TableHistory.value?] at hv ⊢
  rw [← hlater, List.findSome?_append, hv, Option.some_or]

theorem Follows.isLoaded (h : s.Follows) (hc : L.canonical s.world path = .ok c) :
    s.isLoaded L path = (s.history.value? c).isSome := by
  simp only [TableRun.isLoaded, ModuleTable.isLoaded, hc, h.values]

theorem isLoaded_of_error {e : OsError} (hc : L.canonical s.world path = .error e) :
    s.isLoaded L path = false := by
  simp only [isLoaded, ModuleTable.isLoaded, hc]

theorem register_of_error {extension : Text} {e : OptionsError} (handler : η)
    (hn : Extension.normalize extension = .error e) :
    s.register extension handler = (.error e, s) := by
  simp only [register, ModuleTable.register, hn, Except.map]

theorem register_of_ok {extension normal : Text} (handler : η)
    (hn : Extension.normalize extension = .ok normal) :
    (s.register extension handler).1 = .ok () ∧
      (s.register extension handler).2.history = s.history.push (.registered extension handler) := by
  simp only [register, ModuleTable.register, hn, Except.map]
  exact ⟨trivial, trivial⟩

/-- **Once only.** At every point of every run from an empty table, for every canonical path: as
long as no load of it has succeeded, requiring any path that leads to it makes exactly one call, of
the handler registered last for its extension, and gives what the call gives, or makes none if there
is no such handler; from the first value on, it gives that value without a call, whatever is done
in between. `isLoaded` tells which of the two it is. What is refused changes nothing. -/
theorem run_onceOnly (L : ModuleLoading η ω) (w : ω) (steps : List (TableStep η ω)) :
    let s : TableRun η ω := (start w).run L steps
    (∀ path, ((s.require L path).1, (s.require L path).2.table, (s.require L path).2.world) =
      s.table.require L path s.world) ∧
    (∀ path e, L.canonical s.world path = .error e →
      s.require L path = (.error (.file .resolve path e), s) ∧ s.isLoaded L path = false) ∧
    (∀ extension handler,
      match Extension.normalize extension with
      | .error e => s.register extension handler = (.error e, s)
      | .ok _ => (s.register extension handler).1 = .ok () ∧
          (s.register extension handler).2.history =
            s.history.push (.registered extension handler)) ∧
    (∀ path c, L.canonical s.world path = .ok c →
      (s.isLoaded L path = true ↔
        ∃ call, .called call ∈ s.history.events ∧ call.path = c ∧ ∃ v, call.result = .ok v)) ∧
    (∀ path c, L.canonical s.world path = .ok c → s.history.value? c = none →
      match s.history.handler? (ModuleTable.route c) with
      | none => s.require L path = (.error (.unhandledExtension (ModuleTable.route c)), s)
      | some handler =>
        let (result, after, w') := L.load handler c s.world
        (s.require L path).1 = result ∧ (s.require L path).2.world = w' ∧
          (s.require L path).2.history = s.history.push (.called ⟨handler, c, result, after⟩)) ∧
    ∀ c v, s.history.value? c = some v → ∀ later path,
      L.canonical (s.run L later).world path = .ok c →
        (s.run L later).require L path = (.ok v, s.run L later) := by
  intro s
  have h : s.Follows := (follows_start w).run steps
  refine ⟨?_, ?_, ?_, ?_, ?_, ?_⟩
  · intro path
    exact require_forget L s path
  · intro path e hc
    exact ⟨require_of_error hc, isLoaded_of_error hc⟩
  · intro extension handler
    cases hn : Extension.normalize extension with
    | error e => exact register_of_error handler hn
    | ok normal => exact register_of_ok handler hn
  · intro path c hc
    rw [h.isLoaded hc]
    exact s.history.value?_isSome_iff c
  · intro path c hc hv
    cases hh : s.history.handler? (ModuleTable.route c) with
    | none => exact h.require_unhandled hc hv hh
    | some handler =>
      rw [h.require_call hc hv hh]
      exact ⟨rfl, rfl, rfl⟩
  · intro c v hv later path hc
    have hl : (s.run L later).Follows := h.run later
    exact hl.require_of_value hc (value?_run hv later)

/-- two paths to `/a.bin` and one to nothing; the first loads fail, as many as the world says, and
the others give the name of the handler -/
def flakyLoading : ModuleLoading Text Nat where
  canonical := fun _ path =>
    if path = "/gone" then .error .notFound
    else .ok (if path = "/b/../a.bin" then "/a.bin" else path)
  load := fun handler path failures =>
    match failures with
    | 0 => (.ok (.str handler), handler, 0)
    | failures + 1 => (.error (.cacheRejected path), handler, failures)

/-- a load that fails, a second handler whose load succeeds, and a third that comes too late -/
def flakySteps : List (TableStep Text Nat) :=
  [.register ".bin" "first", .require "/a.bin", .register "bin" "second", .require "/b/../a.bin",
    .register ".bin" "third"]

def flakyRun : TableRun Text Nat := (start 1).run flakyLoading flakySteps

/-- from here on the next five loads would fail -/
def flakyLater : List (TableStep Text Nat) := [.change (· + 5), .isLoaded "/a.bin"]

/-- the second value stays, also when later loads would fail; another path goes to the third handler,
and one that leads nowhere and an empty extension change nothing -/
theorem run_onceOnly_flaky :
    (flakyRun.run flakyLoading flakyLater).require flakyLoading "/a.bin" =
      (.ok (.str "second"), flakyRun.run flakyLoading flakyLater) ∧
    (flakyRun.require flakyLoading "/c.bin").1 = .ok (.str "third") ∧
    flakyRun.require flakyLoading "/d.js" = (.error (.unhandledExtension ".js"), flakyRun) ∧
    flakyRun.require flakyLoading "/gone" =
      (.error (.file .resolve "/gone" .notFound), flakyRun) ∧
    flakyRun.register "." "fourth" = (.error (.invalidExtension "."), flakyRun) ∧
    flakyRun.isLoaded flakyLoading "/b/../a.bin" = true := by
  obtain ⟨-, hgone, hregister, hloaded, hcall, hvalue⟩ :=
    run_onceOnly flakyLoading 1 flakySteps
  refine ⟨hvalue "/a.bin" (.str "second") rfl flakyLater "/a.bin" rfl,
    (hcall "/c.bin" "/c.bin" rfl rfl).1, hcall "/d.js" "/d.js" rfl rfl,
    (hgone "/gone" .notFound rfl).1, hregister "." "fourth", (hloaded "/b/../a.bin" "/a.bin" rfl).2 ?_⟩
  exact ⟨⟨"second", "/a.bin", .ok (.str "second"), "second"⟩, List.mem_of_getElem? (i := 3) rfl,
    rfl, .str "second", rfl⟩

end TableRun

end CodeCache
