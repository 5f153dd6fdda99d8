/-
Settings in layers: a target or the flags of a command, the configuration below them, and defaults
below both.

The layers are put together field by field (`Layered`), and the checks come last, on what is left on
top (`LayersOver`). So a setting that is covered counts for nothing, valid or not (`covered_draft`),
and every setting decides about its own option only. Two options look at a second setting: the output
follows the file where none is given, and on the command line a path of Electron's switches Electron
on.

Paths of a target are seen from the root of the configuration. Those of a command are as typed, its
path of Electron's included (`not_compileDraft_resolved`); that of the configuration is seen from the
root below either of them.

Main result, `resolve_layered`.
-/
import CodeCache.CommandLine.Run
import CodeCache.Proofs.Compile.Resolution

namespace CodeCache

/-! ## Settings -/

/-- what can be set for a compile -/
inductive Setting where
  | filename
  | output
  | asModule
  | electron
  | electronPath
  | createLoader
  | loaderName
  | extension
deriving DecidableEq, Repr

/-- what a draft has for a setting: a text, which may be missing, or a switch -/
def Draft.value (d : Draft) : Setting → Option Text ⊕ Bool
  | .filename => .inl (some d.filename)
  | .output => .inl d.output
  | .asModule => .inr d.asModule
  | .electron => .inr d.electron
  | .electronPath => .inl d.electronPath
  | .createLoader => .inr d.createLoader
  | .loaderName => .inl d.loaderName
  | .extension => .inl d.extension

/-- the settings of a target, over nothing -/
def Target.alone (t : Target) : Draft := t.toDraft .empty

/-- the target with its paths placed -/
def Target.placed (t : Target) (place : Text → Text) : Target :=
  { t with
    filename := place t.filename
    output := t.output.map place
    electronPath := t.electronPath.map place }

/-- the draft that asks for all of the options -/
def Options.asDraft (o : Options) : Draft :=
  ⟨o.filename, some o.output, o.asModule, o.electron, o.electronPath, o.createLoader,
    some o.loaderName, some o.extension⟩

/-- the flags of a command as they stand on the command line -/
def CompileCommand.typed (k : CompileCommand) : Target :=
  ⟨k.file, k.output, k.asModule, k.electron, k.electronPath, k.createLoader, k.loaderName,
    k.extension⟩

/-- what the flags ask for: a path of Electron's asks for Electron -/
def CompileCommand.request (k : CompileCommand) : Target :=
  { k.typed with electron := k.electron || k.electronPath.isSome }

namespace Config

/-! ## Layers -/

section Layers

variable (c : Config) (place : Text → Text) (t : Target)

/-- the file has a name, and the extension and the loader name on top stay within names -/
structure Usable : Prop where
  file : (Path.fileName? (place t.filename)).isSome
  extension : IsFilePart (Extension.bare ((t.extension.or c.extension).getD ".bin"))
  loaderName : IsFilePart ((t.loaderName.or c.loaderName).getD "loader.js")

/-- the options have the first of target, configuration and default for each setting -/
structure Layered (o : Options) : Prop where
  filename : o.filename = place t.filename
  output : o.output = (t.output.map place).getD (Path.directory (place t.filename))
  asModule : o.asModule = t.asModule
  electron : o.electron = t.electron
  electronPath : o.electronPath = (t.electronPath.map place).or (c.electron.map c.resolve)
  createLoader : o.createLoader = t.createLoader
  loaderName : o.loaderName = (t.loaderName.or c.loaderName).getD "loader.js"
  extension : o.extension = '.' :: Extension.bare ((t.extension.or c.extension).getD ".bin")

/-- what becomes of a target whose paths are placed: the layered options if it is usable, and an
error otherwise -/
structure LayersOver (outcome : Except OptionsError Options) : Prop where
  resolves_iff : ∀ o, outcome = .ok o ↔ Usable c place t ∧ Layered c place t o
  fails_iff : (∃ e, outcome = .error e) ↔ ¬Usable c place t

theorem targetDraft_eq : c.targetDraft t = (t.placed c.resolve).toDraft c.draft := rfl

theorem compileDraft_eq (k : CompileCommand) :
    Command.compileDraft c k = (k.request.placed id).toDraft c.draft := by
  simp only [Target.placed, Option.map_id_fun, id_eq]
  rfl

/-- the draft of a configuration leaves the output open -/
theorem usable_iff : ((t.placed place).toDraft c.draft).Usable ↔ Usable c place t :=
  ⟨fun ⟨file, extension, loaderName⟩ => ⟨file, extension, loaderName⟩,
    fun ⟨file, extension, loaderName⟩ => ⟨file, extension, loaderName⟩⟩

theorem eq_filled_iff (o : Options) :
    o = ((t.placed place).toDraft c.draft).filled ↔ Layered c place t o := by
  have houtput : (t.output.map place).or c.draft.output = t.output.map place := Option.or_none
  constructor
  · rintro rfl
    exact ⟨rfl, by rw [← houtput]; rfl, rfl, rfl, rfl, rfl, rfl, rfl⟩
  · rintro ⟨hfile, hout, hmodule, helectron, hpath, hloader, hname, hextension⟩
    cases o
    simp only [Draft.filled, Options.mk.injEq]
    exact ⟨hfile, hout.trans (by rw [← houtput]; rfl), hmodule, helectron, hpath, hloader, hname,
      hextension⟩

theorem layersOver : LayersOver c place t ((t.placed place).toDraft c.draft).resolve where
  resolves_iff o := by rw [Draft.resolve_eq_ok_iff, usable_iff, eq_filled_iff]
  fails_iff := by rw [Draft.resolve_fails_iff, usable_iff]

end Layers

/-! ## Covered settings -/

/-- another configuration at the same place that has the same where the target has nothing -/
structure SameBelow (c c' : Config) (t : Target) : Prop where
  root : c'.root = c.root
  electron : t.electronPath = none → c'.electron = c.electron
  loaderName : t.loaderName = none → c'.loaderName = c.loaderName
  extension : t.extension = none → c'.extension = c.extension

theorem or_eq_or {α : Type} {top below below' : Option α} (h : top = none → below' = below) :
    top.or below' = top.or below := by
  cases top with
  | none => exact h rfl
  | some a => rfl

/-- paths depend on the root alone -/
theorem resolve_eq {c c' : Config} (h : c'.root = c.root) : c'.resolve = c.resolve := by
  funext p
  rw [resolve, resolve, h]

theorem covered_draft {c c' : Config} {t : Target} (h : SameBelow c c' t) (place : Text → Text) :
    (t.placed place).toDraft c'.draft = (t.placed place).toDraft c.draft := by
  have hresolve := resolve_eq h.root
  have helectron : (t.electronPath.map place).or c'.electronPath =
      (t.electronPath.map place).or c.electronPath := by
    refine or_eq_or fun hnone => ?_
    rw [electronPath, electronPath, h.electron (Option.map_eq_none_iff.1 hnone), hresolve]
  have hloader : t.loaderName.or c'.loaderName = t.loaderName.or c.loaderName :=
    or_eq_or h.loaderName
  have hextension : t.extension.or c'.extension = t.extension.or c.extension :=
    or_eq_or h.extension
  simp only [Target.toDraft, Target.placed, draft, helectron, hloader, hextension]

/-! ## One setting at a time -/

/-- two configurations at one place, and a target over each, that differ in one setting at most -/
structure ChangesOnly (key : Setting) (c c' : Config) (t t' : Target) : Prop where
  root : c'.root = c.root
  below : ∀ s, s ≠ key → c'.draft.value s = c.draft.value s
  above : ∀ s, s ≠ key → t'.alone.value s = t.alone.value s

namespace ChangesOnly

variable {key : Setting} {c c' : Config} {t t' : Target}

theorem filename_eq (h : ChangesOnly key c c' t t') (hkey : key ≠ .filename) :
    t'.filename = t.filename :=
  Option.some.inj (Sum.inl.inj (h.above .filename hkey.symm))

theorem electronPath_eq (h : ChangesOnly key c c' t t') (hkey : key ≠ .electronPath) :
    t'.electronPath = t.electronPath := by
  have hpath : t'.electronPath.or none = t.electronPath.or none :=
    Sum.inl.inj (h.above .electronPath hkey.symm)
  rwa [Option.or_none, Option.or_none] at hpath

end ChangesOnly

/-- a setting of a draft comes from the same setting of its layers -/
theorem value_toDraft {t t' : Target} {base base' : Draft} {s : Setting}
    (habove : t'.alone.value s = t.alone.value s) (hbelow : base'.value s = base.value s) :
    (t'.toDraft base').value s = (t.toDraft base).value s := by
  cases s <;> simp_all [Target.alone, Target.toDraft, Draft.value, Draft.empty]

theorem value_placed {place : Text → Text} {t t' : Target} {s : Setting}
    (h : t'.alone.value s = t.alone.value s) :
    (t'.placed place).alone.value s = (t.placed place).alone.value s := by
  cases s <;> simp_all [Target.placed, Target.alone, Target.toDraft, Draft.value, Draft.empty]

/-- a path of Electron's on the command line is the one flag that asks for something else too -/
theorem value_request {k k' : CompileCommand} {s : Setting}
    (h : k'.typed.alone.value s = k.typed.alone.value s)
    (hpath : s = .electron → k'.electronPath = k.electronPath) :
    k'.request.alone.value s = k.request.alone.value s := by
  cases s with
  | electron =>
    have helectron : k'.electron = k.electron := Sum.inr.inj h
    change Sum.inr (k'.electron || k'.electronPath.isSome) = _
    rw [helectron, hpath rfl]
    rfl
  | _ => exact h

/-- an option comes from the same setting of its draft, a missing output from the file too -/
theorem value_filled {d d' : Draft} {s : Setting} (h : d'.value s = d.value s)
    (hfile : s = .output → d.output = none → d'.filename = d.filename) :
    d'.filled.asDraft.value s = d.filled.asDraft.value s := by
  cases s with
  | output =>
    have houtput : d'.output = d.output := Sum.inl.inj h
    change Sum.inl (some (d'.output.getD (Path.directory d'.filename))) =
      Sum.inl (some (d.output.getD (Path.directory d.filename)))
    cases hgiven : d.output with
    | none => rw [houtput, hgiven, hfile rfl hgiven]
    | some output => rw [houtput, hgiven, Option.getD_some, Option.getD_some]
  | _ => simp_all [Draft.filled, Options.asDraft, Draft.value]

section Resolved

variable {c c' : Config} {place : Text → Text} {t t' : Target} {o o' : Options} {s : Setting}

theorem value_resolved (habove : t'.alone.value s = t.alone.value s)
    (hbelow : c'.draft.value s = c.draft.value s)
    (hfile : s = .output → t.output = none → t'.filename = t.filename)
    (ho : ((t.placed place).toDraft c.draft).resolve = .ok o)
    (ho' : ((t'.placed place).toDraft c'.draft).resolve = .ok o') :
    o'.asDraft.value s = o.asDraft.value s := by
  obtain ⟨-, rfl⟩ := Draft.resolve_eq_ok_iff.1 ho
  obtain ⟨-, rfl⟩ := Draft.resolve_eq_ok_iff.1 ho'
  refine value_filled (value_toDraft (value_placed habove) hbelow) fun hs hnone => ?_
  have houtput : t.output = none := by
    have hplaced : (t.output.map place).or none = none := hnone
    rwa [Option.or_none, Option.map_eq_none_iff] at hplaced
  exact congrArg place (hfile hs houtput)

end Resolved

/-- **Settings are layered one by one.** A target, with its paths seen from the root of the
configuration, and the flags of a command, with theirs as typed, resolve to what is on top for each
option, or fail because of what is on top. What they cover in the configuration makes no difference,
to errors neither. Where two configurations, and what is over each, differ in one setting, all other
options are the same, except for an output that follows the file, and on the command line for
Electron, which follows its path. -/
theorem resolve_layered (c : Config) :
    (∀ t, LayersOver c c.resolve t (c.targetDraft t).resolve) ∧
    (∀ k, LayersOver c id k.request (Command.compileDraft c k).resolve) ∧
    (∀ c' t, SameBelow c c' t → (c'.targetDraft t).resolve = (c.targetDraft t).resolve) ∧
    (∀ c' k, SameBelow c c' k.request →
      (Command.compileDraft c' k).resolve = (Command.compileDraft c k).resolve) ∧
    (∀ key c' t t' o o', ChangesOnly key c c' t t' →
      (c.targetDraft t).resolve = .ok o → (c'.targetDraft t').resolve = .ok o' →
      ∀ s, s ≠ key → o'.asDraft.value s = o.asDraft.value s ∨
        (s = .output ∧ key = .filename ∧ t.output = none)) ∧
    (∀ key c' k k' o o', ChangesOnly key c c' k.typed k'.typed →
      (Command.compileDraft c k).resolve = .ok o → (Command.compileDraft c' k').resolve = .ok o' →
      ∀ s, s ≠ key → o'.asDraft.value s = o.asDraft.value s ∨
        (s = .output ∧ key = .filename ∧ k.output = none) ∨
        (s = .electron ∧ key = .electronPath)) := by
  refine ⟨fun t => ?_, fun k => ?_, fun c' t hsame => ?_, fun c' k hsame => ?_, ?_, ?_⟩
  · rw [targetDraft_eq]
    exact layersOver c c.resolve t
  · rw [compileDraft_eq]
    exact layersOver c id k.request
  · rw [targetDraft_eq, targetDraft_eq, resolve_eq hsame.root, covered_draft hsame]
  · rw [compileDraft_eq, compileDraft_eq, covered_draft hsame]
  · intro key c' t t' o o' hchange ho ho' s hs
    by_cases hfollows : s = .output ∧ key = .filename ∧ t.output = none
    · exact .inr hfollows
    · left
      rw [targetDraft_eq] at ho ho'
      rw [resolve_eq hchange.root] at ho'
      refine value_resolved (hchange.above s hs) (hchange.below s hs) ?_ ho ho'
      intro houtput hnone
      exact hchange.filename_eq fun hkey => hfollows ⟨houtput, hkey, hnone⟩
  · intro key c' k k' o o' hchange ho ho' s hs
    by_cases hfollows : s = .output ∧ key = .filename ∧ k.output = none
    · exact .inr (.inl hfollows)
    by_cases hswitches : s = .electron ∧ key = .electronPath
    · exact .inr (.inr hswitches)
    · left
      rw [compileDraft_eq] at ho ho'
      have hrequest : k'.request.alone.value s = k.request.alone.value s := by
        refine value_request (hchange.above s hs) fun helectron => ?_
        exact hchange.electronPath_eq fun hkey => hswitches ⟨helectron, hkey⟩
      refine value_resolved hrequest (hchange.below s hs) ?_ ho ho'
      intro houtput hnone
      exact hchange.filename_eq fun hkey => hfollows ⟨houtput, hkey, hnone⟩

/-- a configuration whose extension leads into another directory -/
def strayExtension : Config :=
  ⟨none, some "bin/electron", some "load.js", some "a/b", [], [], "/project"⟩

/-- a target with an extension of its own -/
def ownExtension : Target := ⟨"src/app.js", none, true, false, none, true, none, some ".jsc"⟩

/-- a file on the command line, with an extension of its own -/
def plainCompile : CompileCommand := ⟨"app.js", none, false, false, none, false, none, some "jsc"⟩

/-- The invalid extension harms the target without one, and not the target with one, which resolves
as it does over nothing there. A path of Electron's on the command line leaves the output alone. -/
theorem resolve_layered_strayExtension :
    (strayExtension.targetDraft ownExtension).resolve =
      .ok ⟨"/project/src/app.js", "/project/src", true, false, some "/project/bin/electron", true,
        "load.js", ".jsc"⟩ ∧
    (({ strayExtension with extension := none } : Config).targetDraft ownExtension).resolve =
      (strayExtension.targetDraft ownExtension).resolve ∧
    (∃ e, (strayExtension.targetDraft { ownExtension with extension := none }).resolve = .error e) ∧
    ∃ o o', (Command.compileDraft strayExtension plainCompile).resolve = .ok o ∧
      (Command.compileDraft strayExtension { plainCompile with electronPath := some "./e" }).resolve =
        .ok o' ∧
      o'.asDraft.value .output = o.asDraft.value .output := by
  obtain ⟨htarget, -, hcovered, -, -, hflags⟩ := resolve_layered strayExtension
  refine ⟨?_, ?_, ?_, _, _, rfl, rfl, ?_⟩
  · refine ((htarget ownExtension).resolves_iff _).2 ⟨⟨by decide, by decide, by decide⟩, ?_⟩
    exact ⟨rfl, rfl, rfl, rfl, rfl, rfl, rfl, rfl⟩
  · refine hcovered _ ownExtension ⟨rfl, fun _ => rfl, fun _ => rfl, fun hnone => ?_⟩
    cases hnone
  · refine (htarget _).fails_iff.2 fun husable => ?_
    exact absurd husable.extension (by decide)
  · have hchange : ChangesOnly .electronPath strayExtension strayExtension plainCompile.typed
        ({ plainCompile with electronPath := some "./e" } : CompileCommand).typed := by
      refine ⟨rfl, fun _ _ => rfl, fun s hs => ?_⟩
      cases s with
      | electronPath => exact absurd rfl hs
      | _ => rfl
    have hkept := hflags .electronPath _ _ _ _ _ hchange rfl rfl .output (by decide)
    rcases hkept with hkept | ⟨-, hkey, -⟩ | ⟨hsetting, -⟩
    · exact hkept
    · cases hkey
    · cases hsetting

/-- a path of Electron's on the command line is not seen from the root of the configuration -/
theorem not_compileDraft_resolved :
    ¬∀ (c : Config) (k : CompileCommand) o, (Command.compileDraft c k).resolve = .ok o →
      o.electronPath = (k.electronPath.or c.electron).map c.resolve := by
  intro h
  have hpath := h (.empty "sub") ⟨"a.js", none, false, false, some "./e", false, none, none⟩ _ rfl
  exact absurd hpath (by decide)

end Config

end CodeCache
