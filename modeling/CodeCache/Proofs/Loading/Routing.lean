/-
Which handler a cache is loaded by.

A cache is written with its extension behind the stem of the source, and routed by what is behind the
last point of its canonical path. So it comes back to its extension if that has no second point
(`Extension.routed_eq_iff`), and otherwise goes to the end of it. Main result, `compileFile_routed`:
requiring a compiled cache calls the handler registered under the routed extension, once, or names
that extension when there is none.

An extension with two points is accepted by the options and by the table, and its caches never reach
the handler registered under it (`not_compileFile_routed`).
-/
import CodeCache.Proofs.Compile.RoundTrip
import CodeCache.Proofs.Compile.Stages

namespace CodeCache

/-! ## Extensions -/

namespace Extension

/-- what files are routed by whose names end in this extension -/
def routed (extension : Text) : Text :=
  match Text.splitLast? '.' extension with
  | some (_, last) => '.' :: last
  | none => extension

theorem routed_of_splitLast? {extension before last : Text}
    (h : Text.splitLast? '.' extension = some (before, last)) : routed extension = '.' :: last := by
  rw [routed, h]

/-- an extension routes to itself unless it has a second point -/
theorem routed_eq_iff (bare : Text) : routed ('.' :: bare) = '.' :: bare ↔ '.' ∉ bare := by
  constructor
  · intro h
    obtain ⟨before, last, hcut, hlast⟩ := Text.exists_splitLast? (List.mem_cons_self (l := bare))
    rw [routed_of_splitLast? hcut] at h
    obtain rfl := (List.cons.inj h).2
    exact hlast
  · intro h
    exact routed_of_splitLast? (Text.splitLast?_append h [])

end Extension

/-! ## Requiring a cache -/

namespace ModuleTable

variable {η ω : Type} {L : ModuleLoading η ω} {table : ModuleTable η} {path c : Text} {w : ω}

/-- requiring the path calls this handler for the canonical path, once -/
def Calls (L : ModuleLoading η ω) (table : ModuleTable η) (path c : Text) (handler : η) (w : ω) :
    Prop :=
  table.require L path w =
    ((L.load handler c w).1, table.afterCall c (L.load handler c w).1 (L.load handler c w).2.1,
      (L.load handler c w).2.2)

/-- what requiring the path does if it leads to `c` and is routed by `extension`: it gives the value
that is there, or calls the handler of the extension, or says that there is none -/
def RoutedTo (L : ModuleLoading η ω) (table : ModuleTable η) (path c extension : Text) (w : ω) :
    Prop :=
  match table.value? c, table.handlers.lookup extension with
  | some v, _ => table.require L path w = (.ok v, table, w)
  | none, some handler => table.Calls L path c handler w
  | none, none => table.require L path w = (.error (.unhandledExtension extension), table, w)

theorem routedTo_of_canonical (hc : L.canonical w path = .ok c) :
    table.RoutedTo L path c (route c) w := by
  unfold RoutedTo
  cases hv : table.value? c with
  | some v => exact require_of_value hc hv
  | none =>
    cases hh : table.handlers.lookup (route c) with
    | some handler => exact require_call hc hv hh
    | none => exact require_unhandled hc hv hh

end ModuleTable

namespace Toolchain

open ModuleTable

variable {σ η ω : Type} {T : Toolchain σ} {d : Draft} {o : Options} {m m' : Machine}
  {report : Report} {s s' : σ}

/-- the cache that a compile leaves is at a place of its name -/
theorem exists_cache (hd : d.resolve = .ok o) (hm : m.files.Orderly m.directory)
    (hloader : o.createLoader = true → o.loaderPath ≠ o.cachePath)
    (hcompile : T.compileFile o m s = (.ok report, m', s')) :
    report.cachePath = o.cachePath ∧
      ∃ above cache, m'.HasFile o.cachePath (above ++ [o.compiledName]) cache := by
  obtain ⟨hname, -⟩ := Draft.resolve_spec hd
  obtain ⟨text, cache, loaderPath, m₁, -, hsource, hwrite, rfl⟩ := compileFile_ok hcompile
  obtain ⟨hfiles, hdirectory⟩ := files_of_compileSource hsource
  have hm₁ : m₁.files.Orderly m₁.directory := by rwa [hfiles, hdirectory]
  obtain ⟨above, hfile, -⟩ :=
    writeOutputs_spec hm₁ (Draft.isPlain_compiledName hd) hname hloader hwrite
  exact ⟨rfl, above, cache, hfile⟩

/-- **A compiled cache is routed by the end of its extension.** On a machine without symbolic links,
let a compile succeed whose loader, if there is one, does not replace the cache. Its extension can be
registered as it is. Requiring the cache path, in any table, then loads by the handler of the routed
extension, which is the extension itself unless that has a second point; in particular, a handler
under an extension with one point is called for a cache that is not in the table yet. Nothing is
loaded only if the absolute path of the cache is too long to be looked up. -/
theorem compileFile_routed (hd : d.resolve = .ok o) (hm : m.files.Orderly m.directory)
    (hloader : o.createLoader = true → o.loaderPath ≠ o.cachePath)
    (hcompile : T.compileFile o m s = (.ok report, m', s')) (L : ModuleLoading η ω) (w : ω)
    (hcanonical : ∀ path, L.canonical w path = m'.canonical path) (table : ModuleTable η) :
    (∀ handler, table.register o.extension handler = .ok (table.setHandler o.extension handler)) ∧
    (Extension.routed o.extension = o.extension ↔ '.' ∉ o.extension.tail) ∧
    match m'.canonical report.cachePath with
    | .error e =>
      e = .nameTooLong ∧
        table.require L report.cachePath w = (.error (.file .resolve report.cachePath e), table, w)
    | .ok c =>
      table.RoutedTo L report.cachePath c (Extension.routed o.extension) w ∧
      ∀ handler, '.' ∉ o.extension.tail → table.value? c = none →
        table.handlers.lookup o.extension = some handler →
        table.Calls L report.cachePath c handler w := by
  obtain ⟨-, hnormal, stem, bare, hstem, -, hextension, hname⟩ := Draft.resolve_spec hd
  obtain ⟨hpath, above, cache, hfile⟩ := exists_cache hd hm hloader hcompile
  obtain ⟨executable, hplace⟩ := hfile.place
  obtain ⟨-, hnames, -⟩ := hfile.orderly.place_spec hplace
  have hself : Extension.routed o.extension = o.extension ↔ '.' ∉ o.extension.tail := by
    rw [hextension]
    exact Extension.routed_eq_iff bare
  refine ⟨fun handler => by rw [register, hnormal]; rfl, hself, ?_⟩
  rw [hpath]
  rcases hfile.orderly.canonical_of_place hplace (by simp) with ⟨hc, -⟩ | hlong
  · have hroute : route (Route.text (above ++ [o.compiledName])) =
        Extension.routed o.extension := by
      obtain ⟨before, last, hcut, -⟩ := Text.exists_splitLast? (List.mem_cons_self (l := bare))
      rw [hname] at hnames ⊢
      rw [route_text hstem.1 hcut hnames, hextension, Extension.routed_of_splitLast? hcut]
    have hrouted : table.RoutedTo L o.cachePath _ _ w :=
      routedTo_of_canonical ((hcanonical o.cachePath).trans hc)
    rw [hroute] at hrouted
    rw [show m'.canonical o.cachePath = _ from hc]
    refine ⟨hrouted, ?_⟩
    intro handler hpoint hvalue hhandler
    rw [hself.2 hpoint] at hrouted
    simpa only [RoutedTo, hvalue, hhandler] using hrouted
  · rw [show m'.canonical o.cachePath = _ from hlong]
    exact ⟨rfl, require_of_error ((hcanonical o.cachePath).trans hlong)⟩

end Toolchain

namespace SimulatedEngine

open ModuleTable

/-- a module to be compiled under an extension -/
def routedDraft (extension : Text) : Draft :=
  { Draft.empty with filename := "app.js", asModule := true, extension := some extension }

def routedOptions (extension : Text) : Options :=
  ⟨"app.js", ".", true, false, none, false, Options.standardLoaderName, extension⟩

def routedText : Text := "module.exports = 1;"

def routedMachine : Machine :=
  ⟨⟨[(["app.js"], .file (Utf8.encode routedText) false none)]⟩, [], [], []⟩

theorem orderly_routed : routedMachine.files.Orderly routedMachine.directory where
  linkFree := FileSystem.linkFree_of_nodes (by simp [routedMachine])
  stands := FileSystem.stands_root _

def routedResult (extension : Text) : Except CompileError Report × Machine × SimulatedEngine :=
  (toolchain .builtIn .complete).compileFile (routedOptions extension) routedMachine standard

def routedReport (cachePath : Text) : Report :=
  ⟨"app.js", cachePath, none, Text.units (Source.prepare true routedText),
    (standard.cacheOf (Source.prepare true routedText)).length⟩

/-- a table that has a handler under one extension -/
def routedTable (extension : Text) : ModuleTable CacheHandler :=
  ModuleTable.empty.setHandler extension (CacheHandler.new .builtIn .module)

/-- the cache `app.kiln` is loaded by the handler for `.kiln` -/
theorem compileFile_routed_kiln :
    (routedDraft ".kiln").resolve = .ok (routedOptions ".kiln") ∧
    (routedResult ".kiln").2.1.canonical "./app.kiln" = .ok "/app.kiln" ∧
    (routedTable ".kiln").Calls (CacheHandler.loading engine) "./app.kiln" "/app.kiln"
      (CacheHandler.new .builtIn .module)
      ((routedResult ".kiln").2.1, (routedResult ".kiln").2.2) := by
  have hreport : (routedResult ".kiln").1 = .ok (routedReport "./app.kiln") := rfl
  have hcanonical : (routedResult ".kiln").2.1.canonical (routedReport "./app.kiln").cachePath =
      .ok "/app.kiln" := rfl
  have hcompile : (toolchain .builtIn .complete).compileFile (routedOptions ".kiln") routedMachine
      standard = (.ok (routedReport "./app.kiln"), (routedResult ".kiln").2.1,
        (routedResult ".kiln").2.2) :=
    Prod.ext hreport rfl
  obtain ⟨-, -, hrequire⟩ := Toolchain.compileFile_routed (d := routedDraft ".kiln")
    (o := routedOptions ".kiln") rfl orderly_routed (fun hloader => absurd hloader (by decide)) hcompile
    (CacheHandler.loading engine) ((routedResult ".kiln").2.1, (routedResult ".kiln").2.2)
    (fun _ => rfl) (routedTable ".kiln")
  rw [hcanonical] at hrequire
  exact ⟨rfl, hcanonical, hrequire.2 _ (by decide) rfl rfl⟩

/-- **Not every handler gets the caches of its extension.** `app.js` compiled under `.kiln.bin` is
`app.kiln.bin`, and a table with a handler for `.kiln.bin` has none for it: it looks for `.bin`. -/
theorem not_compileFile_routed :
    ¬∀ (d : Draft) (o : Options) (m m' : Machine) (report : Report) (E E' : SimulatedEngine)
        (table : ModuleTable CacheHandler) (extension : Text),
      d.resolve = .ok o → m.files.Orderly m.directory → o.createLoader = false →
      (toolchain .builtIn .complete).compileFile o m E = (.ok report, m', E') →
      ModuleTable.empty.register o.extension (CacheHandler.new .builtIn .module) = .ok table →
      (table.require (CacheHandler.loading engine) report.cachePath (m', E')).1 ≠
        .error (.unhandledExtension extension) := by
  intro h
  have hreport : (routedResult ".kiln.bin").1 = .ok (routedReport "./app.kiln.bin") := rfl
  have hcompile : (toolchain .builtIn .complete).compileFile (routedOptions ".kiln.bin")
      routedMachine standard = (.ok (routedReport "./app.kiln.bin"),
        (routedResult ".kiln.bin").2.1, (routedResult ".kiln.bin").2.2) :=
    Prod.ext hreport rfl
  have hunhandled : ((routedTable ".kiln.bin").require (CacheHandler.loading engine)
      (routedReport "./app.kiln.bin").cachePath
      ((routedResult ".kiln.bin").2.1, (routedResult ".kiln.bin").2.2)).1 =
        .error (.unhandledExtension ".bin") := rfl
  exact h (routedDraft ".kiln.bin") (routedOptions ".kiln.bin") routedMachine
    (routedResult ".kiln.bin").2.1 (routedReport "./app.kiln.bin") standard
    (routedResult ".kiln.bin").2.2 (routedTable ".kiln.bin") ".bin" rfl orderly_routed rfl hcompile
    rfl hunhandled

end SimulatedEngine

end CodeCache
