/-
Running a cache from the command line.

The command registers its handler for the extension of the path as it was typed, and the table routes
by the extension of the canonical path. The two are compared for every chain of links.

Main result, `runCache_routed`: the handler is reached exactly when the two extensions agree, and
then the command shows what loading the content of the file gives. They agree whenever the path does
not end with a link. A link under another extension is refused (`not_runCache_linked`): the command
has no handler for its own cache.
-/
import CodeCache.Proofs.CommandLine.Build
import CodeCache.Proofs.Host.Framing
import CodeCache.Proofs.Loading.Tables
import CodeCache.Proofs.System.Links

namespace CodeCache

/-! ## Extensions -/

/-- what is behind the last separator has none -/
theorem Text.not_mem_of_splitLast? {sep : Char} {t a b : Text} (h : splitLast? sep t = some (a, b)) :
    sep ∉ b := by
  have hmem : sep ∈ t := by
    rw [eq_of_splitLast? h]
    simp
  obtain ⟨a', b', hcut, hb⟩ := exists_splitLast? hmem
  rw [h] at hcut
  cases hcut
  exact hb

/-- an extension has no point -/
theorem Path.no_point_of_extension? {p extension : Text} (h : extension? p = some extension) :
    '.' ∉ extension := by
  obtain ⟨name, -, hname⟩ := Option.bind_eq_some_iff.1 h
  unfold cutName at hname
  cases hcut : Text.splitLast? '.' name with
  | none => rw [hcut] at hname; cases hname
  | some cut =>
    obtain ⟨stem, after⟩ := cut
    simp only [hcut] at hname
    split_ifs at hname
    cases hname
    exact Text.not_mem_of_splitLast? hcut

namespace ModuleTable

variable {η : Type} {p extension : Text} {handler : η} {table : ModuleTable η}

/-- a path is routed to the handler of an extension if that is its own -/
theorem route_eq_iff : route p = '.' :: extension ↔ Path.extension? p = some extension := by
  unfold route
  cases Path.extension? p with
  | none => simp
  | some other => simp

/-- a table that takes the extension of a path has the handler under that extension -/
theorem register_extension
    (h : ModuleTable.empty.register ((Path.extension? p).getD []) handler = .ok table) :
    ∃ extension, Path.extension? p = some extension ∧
      table = ModuleTable.empty.setHandler ('.' :: extension) handler := by
  cases hp : Path.extension? p with
  | none => rw [hp] at h; cases h
  | some extension =>
    have hbare : Extension.bare extension = extension := by
      refine Text.dropped_of_not_mem ?_
      intro hpoint
      exact Path.no_point_of_extension? hp (List.mem_of_mem_head? hpoint)
    refine ⟨extension, rfl, ?_⟩
    rw [hp, Option.getD_some, register, Extension.normalize, hbare] at h
    split_ifs at h
    · cases h
    · exact (Except.ok.inj h).symm

end ModuleTable

/-- a load never misses a handler -/
theorem CacheHandler.loadBytes_ne_unhandled {σ : Type} (E : ScriptEngine σ) (h : CacheHandler)
    (filename : Text) (data : Bytes) (s : σ) (extension : Text) :
    (h.loadBytes E filename data s).1 ≠ .error (.unhandledExtension extension) := by
  have hanswer : ∀ outcome, answer filename outcome ≠ .error (.unhandledExtension extension) := by
    intro outcome
    cases outcome with
    | error e => simp [answer]
    | ok outcome => cases outcome <;> simp [answer]
  unfold loadBytes
  split
  · simp
  · next buffer handler engine _ =>
    simp only [run]
    cases Header.declaredLength buffer with
    | error e => simp
    | ok length => exact hanswer _

namespace Command

open FileSystem

/-- the handler of the command -/
def cacheHandler (c : Config) (asModule : Bool) : CacheHandler :=
  .new c.layoutTable (if asModule then .module else .script)

/-- what the command prints, or its failure -/
def shown : Except CompileError Json → Except CommandError Text
  | .error e => .error (.compile e)
  | .ok value => .ok (Text.line value.pretty)

section Routing

variable {c : Config} {cache extension : Text} {asModule : Bool} {m m' : Machine} {host : HostEngine}
  {table : ModuleTable CacheHandler} {r : Route} {node : Node}

/-- the host has changed nothing that paths depend on -/
theorem canonical_of_launch (hlaunch : launch c m = (.ok host, m')) :
    (CacheHandler.loading HostEngine.engine).canonical (m', host) cache =
      m.canonical cache := by
  obtain ⟨record, hm'⟩ := launch_machine c m
  rw [hlaunch] at hm'
  rw [show m' = { m with record := record } from hm']
  rfl

section Launched

variable (hlaunch : launch c m = (.ok host, m'))
  (hregister : ModuleTable.empty.register ((Path.extension? cache).getD [])
    (cacheHandler c asModule) = .ok table)

include hlaunch hregister

/-- once the host is launched and the extension taken, the result is that of the table -/
theorem runCache_fst : (runCache c cache asModule m).1 =
    shown (table.require (CacheHandler.loading HostEngine.engine) cache (m', host)).1 := by
  rw [cacheHandler] at hregister
  simp only [runCache, hlaunch, hregister]
  obtain ⟨result, table', w, s⟩ :=
    table.require (CacheHandler.loading HostEngine.engine) cache (m', host)
  cases result <;> rfl

theorem runCache_unresolved {e : OsError} (hc : m.canonical cache = .error e) :
    (runCache c cache asModule m).1 = .error (.compile (.file .resolve cache e)) := by
  have hcanonical := (canonical_of_launch hlaunch).trans hc
  rw [runCache_fst hlaunch hregister, ModuleTable.require_of_error hcanonical]
  rfl

/-- **The two extensions** decide whether the handler is reached -/
theorem runCache_resolved {path : Text} (hc : m.canonical cache = .ok path) :
    (runCache c cache asModule m).1 =
      if Path.extension? path = Path.extension? cache then
        shown ((cacheHandler c asModule).load HostEngine.engine m path host).1
      else .error (.compile (.unhandledExtension (ModuleTable.route path))) := by
  have hcanonical := (canonical_of_launch hlaunch).trans hc
  obtain ⟨extension, hextension, htable⟩ := ModuleTable.register_extension hregister
  have hvalue : table.value? path = none := by
    rw [htable]
    rfl
  have hlookup : table.handlers.lookup (ModuleTable.route path) =
      if Path.extension? path = Path.extension? cache then some (cacheHandler c asModule)
      else none := by
    rw [htable, ModuleTable.handlers_setHandler, hextension]
    exact if_congr ModuleTable.route_eq_iff rfl rfl
  rw [runCache_fst hlaunch hregister]
  split_ifs at hlookup ⊢
  · obtain ⟨record, hm'⟩ := launch_machine c m
    rw [hlaunch] at hm'
    rw [ModuleTable.require_call hcanonical hvalue hlookup,
      show m' = { m with record := record } from hm']
    rfl
  · rw [ModuleTable.require_unhandled hcanonical hvalue hlookup]
    rfl

end Launched

/-- loading what is read is loading its bytes -/
theorem shown_load_of_read {h : CacheHandler} {path : Text} {content : Bytes}
    (hread : m.read path = .ok content) :
    shown (h.load HostEngine.engine m path host).1 =
      shown (h.loadBytes HostEngine.engine path content host).1 := by
  simp only [CacheHandler.load, hread]

theorem shown_load_of_error {h : CacheHandler} {path : Text} {e : OsError}
    (hread : m.read path = .error e) :
    shown (h.load HostEngine.engine m path host).1 = .error (.compile (.file .read path e)) := by
  simp only [CacheHandler.load, hread, shown]

theorem shown_ne_unhandled {result : Except CompileError Json} {extension : Text}
    (h : result ≠ .error (.unhandledExtension extension)) :
    shown result ≠ .error (.compile (.unhandledExtension extension)) := by
  cases result with
  | error e => simpa [shown] using h
  | ok value => simp [shown]

/-- **A cache is run by its own handler if its extension stays its own.** Let a path lead to a file
or a directory, through whatever links, and let the host be launched and the extension of the path be
accepted. Then the command fails only if the path cannot be made canonical, for its length, or
routes by the extension of the canonical path. If this is the extension typed, the command never
misses a handler, and shows what loading the content of the file gives; a directory cannot be read.
If it is another, the command says that it has no handler for it. It is the one typed if the path
does not end with a link. -/
theorem runCache_routed (hlaunch : launch c m = (.ok host, m'))
    (hregister : ModuleTable.empty.register ((Path.extension? cache).getD [])
      (cacheHandler c asModule) = .ok table)
    (hlinks : m.files.LinksSayable) (hhere : m.files.Stands m.directory)
    (hfind : m.files.find m.directory cache = .ok (r, node)) :
    let result := (runCache c cache asModule m).1
    ((m.canonical cache = .error .nameTooLong ∧
        result = .error (.compile (.file .resolve cache .nameTooLong))) ∨
      (m.canonical cache = .ok r.text ∧
        (Path.extension? r.text = Path.extension? cache →
          (∀ extension, result ≠ .error (.compile (.unhandledExtension extension))) ∧
          match node with
          | .file content _ _ => result =
              shown ((cacheHandler c asModule).loadBytes HostEngine.engine r.text content host).1
          | _ => ∃ e, result = .error (.compile (.file .read r.text e))) ∧
        (Path.extension? r.text ≠ Path.extension? cache →
          result = .error (.compile (.unhandledExtension (ModuleTable.route r.text)))))) ∧
    ∀ r' content executable program, m.files.place m.directory .upTo cache =
        .ok ⟨r', some (.file content executable program)⟩ →
      Path.extension? r.text = Path.extension? cache := by
  intro result
  constructor
  · rcases canonical_of_find hlinks hhere hfind with hlong | ⟨hc, hreads⟩
    · exact .inl ⟨hlong, runCache_unresolved hlaunch hregister hlong⟩
    · right
      have hresult := runCache_resolved hlaunch hregister hc
      refine ⟨hc, ?_, fun hother => hresult.trans (if_neg hother)⟩
      intro hsame
      replace hresult := hresult.trans (if_pos hsame)
      have hread := hreads m.directory
      cases node with
      | file content executable program =>
        have hloaded := hresult.trans (shown_load_of_read hread)
        refine ⟨?_, hloaded⟩
        intro extension
        rw [show result = _ from hloaded]
        exact shown_ne_unhandled (CacheHandler.loadBytes_ne_unhandled _ _ _ _ _ extension)
      | directory =>
        obtain ⟨e, he⟩ := hread
        have hfails := hresult.trans (shown_load_of_error he)
        exact ⟨by simp [result, hfails], e, hfails⟩
      | link target =>
        obtain ⟨e, he⟩ := hread
        have hfails := hresult.trans (shown_load_of_error he)
        exact ⟨by simp [result, hfails], e, hfails⟩
  · intro r' content executable program hplace
    have hthrough := place_upTo hplace (by simp)
    rw [place_of_find hfind] at hthrough
    cases hthrough
    rw [Path.extension?, Path.extension?, fileName?_of_unlinked hlinks hhere hplace]

end Routing

/-! ## A cache under two more names -/

/-- versions, a reference cache, and the outcome of a run -/
def linkedFrames : List Frame :=
  [⟨0, Utf8.encode "\x7b\"node\":\"v22.12.0\",\"v8\":\"12.4\"\x7d"⟩,
    ⟨0, (List.range 20).map UInt8.ofNat⟩,
    ⟨0, Utf8.encode "\x7b\"rejected\":false,\"value\":7\x7d"⟩]

def linkedReplies : List Reply := linkedFrames.map fun frame => ⟨frame.bytes, false⟩

def linkedCache : Bytes := List.replicate 20 0

/-- `a.jsc` is a cache, `b.jsc` leads to it and so does `a.bin` -/
def linkedFiles : FileSystem :=
  ⟨[(["host"], .file [] true (some ⟨"host", .host linkedReplies⟩)),
    (["a.jsc"], .file linkedCache false none), (["b.jsc"], .link "a.jsc"),
    (["a.bin"], .link "a.jsc")]⟩

def linkedMachine : Machine := ⟨linkedFiles, [], [("KILN_NODE", "/host")], []⟩

def linkedConfig : Config := .empty "/"

theorem linksSayable_linked : linkedFiles.LinksSayable := by
  apply linksSayable_of_nodes
  intro entry hentry target htarget
  simp only [linkedFiles, List.mem_cons, List.not_mem_nil, or_false] at hentry
  rcases hentry with rfl | rfl | rfl | rfl <;> cases htarget <;> decide

theorem launch_linked : ∃ host m', launch linkedConfig linkedMachine = (.ok host, m') := by
  have hlaunched : (launch linkedConfig linkedMachine).1.isOk = true := by decide +kernel
  revert hlaunched
  generalize launch linkedConfig linkedMachine = launched
  intro hlaunched
  obtain ⟨result, m'⟩ := launched
  cases result with
  | error e => cases hlaunched
  | ok host => exact ⟨host, m', rfl⟩

/-- through the link of its own extension the cache is loaded, and gives 7 -/
theorem runCache_routed_linked :
    (∃ host, (runCache linkedConfig "b.jsc" false linkedMachine).1 =
      shown ((cacheHandler linkedConfig false).loadBytes HostEngine.engine "/a.jsc" linkedCache
        host).1) ∧
    (runCache linkedConfig "b.jsc" false linkedMachine).1 = .ok "7\n" ∧
    (runCache linkedConfig "a.jsc" false linkedMachine).1 = .ok "7\n" := by
  obtain ⟨host, m', hlaunch⟩ := launch_linked
  have hfind : linkedFiles.find [] "b.jsc" = .ok (["a.jsc"], .file linkedCache false none) := by
    decide +kernel
  have hcanonical : linkedMachine.canonical "b.jsc" = .ok "/a.jsc" := by decide +kernel
  have hregister : ModuleTable.empty.register ((Path.extension? "b.jsc").getD [])
      (cacheHandler linkedConfig false) =
        .ok (ModuleTable.empty.setHandler ".jsc" (cacheHandler linkedConfig false)) := rfl
  obtain ⟨hrouted, -⟩ := runCache_routed hlaunch hregister linksSayable_linked (stands_root _) hfind
  refine ⟨⟨host, ?_⟩, by decide +kernel, by decide +kernel⟩
  rcases hrouted with ⟨hlong, -⟩ | ⟨-, hsame, -⟩
  · cases hcanonical.symm.trans hlong
  · exact (hsame (by decide)).2

/-- **A link under another extension is refused.** `a.bin` leads to `a.jsc`; the command takes `.bin`
for the cache and finds no handler for `.jsc`. -/
theorem not_runCache_linked :
    ¬∀ (c : Config) (cache : Text) (asModule : Bool) (m m' : Machine) (host : HostEngine)
        (table : ModuleTable CacheHandler) (r : Route) (content : Bytes) (extension : Text),
      launch c m = (.ok host, m') →
      ModuleTable.empty.register ((Path.extension? cache).getD []) (cacheHandler c asModule) =
        .ok table →
      m.files.LinksSayable → m.files.Stands m.directory →
      m.files.find m.directory cache = .ok (r, .file content false none) →
      (runCache c cache asModule m).1 ≠ .error (.compile (.unhandledExtension extension)) := by
  intro h
  obtain ⟨host, m', hlaunch⟩ := launch_linked
  have hfind : linkedFiles.find [] "a.bin" = .ok (["a.jsc"], .file linkedCache false none) := by
    decide +kernel
  have hunhandled : (runCache linkedConfig "a.bin" false linkedMachine).1 =
      .error (.compile (.unhandledExtension ".jsc")) := by decide +kernel
  exact h linkedConfig "a.bin" false linkedMachine m' host _ ["a.jsc"] linkedCache ".jsc" hlaunch rfl
    linksSayable_linked (stands_root _) hfind hunhandled

end Command

end CodeCache
