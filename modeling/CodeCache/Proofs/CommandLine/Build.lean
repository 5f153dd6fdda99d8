/-
Builds are checked first, and exact up to the first failure.

Main result, `runBuild_exact`. The targets of a build are those whose file name, as written, contains
the filter, in the order of the configuration; nothing depends on the others.
- Without such a target, with options that do not resolve, or with a host that is needed and does not
  start, the build fails and no file has changed.
- Otherwise the files are compiled one after another. If all of them are, there is a line for each
  and the count. If not, the first failure is the error, nothing is printed, and the machine and the
  engine are those after this compile, whatever comes behind it.
-/
import Mathlib.Tactic
import CodeCache.CommandLine.Run
import CodeCache.Proofs.Compile.Runs
import CodeCache.Proofs.Text.Digits
import CodeCache.Proofs.Text.Marks

namespace CodeCache

/-! ## Lists of results -/

section Results

variable {α β ε : Type} {f : α → Except ε β}

theorem mapM_of_ok {xs : List α} {ys : List β} (h : xs.map f = ys.map .ok) : xs.mapM f = .ok ys := by
  induction xs generalizing ys with
  | nil =>
    obtain rfl := List.map_eq_nil_iff.1 h.symm
    rfl
  | cons x xs ih =>
    cases ys with
    | nil => cases h
    | cons y ys =>
      obtain ⟨hx, hxs⟩ := List.cons.inj h
      rw [List.mapM_cons, hx, ih hxs]
      rfl

/-- the first error is the result, whatever comes behind it -/
theorem mapM_of_error {before later : List α} {x : α} {e : ε}
    (hbefore : ∀ y ∈ before, ∃ z, f y = .ok z) (hx : f x = .error e) :
    (before ++ x :: later).mapM f = .error e := by
  induction before with
  | nil =>
    rw [List.nil_append, List.mapM_cons, hx]
    rfl
  | cons y before ih =>
    obtain ⟨z, hz⟩ := hbefore y List.mem_cons_self
    have hrest := ih fun w hw => hbefore w (List.mem_cons_of_mem y hw)
    rw [List.cons_append, List.mapM_cons, hz, hrest]
    rfl

end Results

/-! ## Builds -/

namespace Command

open Toolchain

variable {σ : Type} {c : Config} {filter : Option Text} {m m₁ : Machine}

/-- the line of a target: its source, its cache, and the size of the cache in decimal digits -/
def targetLine (o : Options) (size : Nat) : Text :=
  o.filename ++ " -> ".toList ++ o.cachePath ++ " (".toList ++ Nat.toDigits 10 size ++
    " bytes)\n".toList

/-- the last line of a build: how many targets there were -/
def countLine (n : Nat) : Text := "built ".toList ++ Nat.toDigits 10 n ++ " target(s)\n".toList

/-- what a build prints: a line for each target, in order, with the size that its report tells, and
the count -/
def buildText (options : List Options) (reports : List Report) : Text :=
  (List.zipWith (fun o report => targetLine o report.cacheLength) options reports).flatten ++
    countLine options.length

/-- what a build gives that compiles with this toolchain from here; `settle` is what happens to the
machine when the engine is not needed any more -/
structure BuildsExactly (T : Toolchain σ) (m : Machine) (s : σ) (settle : Machine → σ → Machine)
    (options : List Options) (result : Except CommandError Text × Machine) : Prop where
  success : ∀ reports m₁ s₁, T.Runs m s options reports m₁ s₁ →
    List.Forall₂ Tells options reports ∧ result = (.ok (buildText options reports), settle m₁ s₁)
  failure : ∀ before o later reports m₁ s₁ e m₂ s₂, options = before ++ o :: later →
    T.Runs m s before reports m₁ s₁ → T.compileFile o m₁ s₁ = (.error e, m₂, s₂) →
    result = (.error (.compile e), settle m₂ s₂)
  /-- there is no third case -/
  either : (∃ reports m₁ s₁, T.Runs m s options reports m₁ s₁) ∨
    ∃ before o later reports m₁ s₁ e m₂ s₂, options = before ++ o :: later ∧
      T.Runs m s before reports m₁ s₁ ∧ T.compileFile o m₁ s₁ = (.error e, m₂, s₂)

/-! ## What is printed -/

theorem line_of_tells {o : Options} {report : Report} (h : Tells o report) :
    report.line = targetLine o report.cacheLength := by
  obtain ⟨hsource, hcache⟩ := h
  rw [Report.line, Text.line, hsource, hcache, Text.ofNat_eq, targetLine]
  simp only [List.append_assoc]
  rfl

theorem count_eq (n : Nat) :
    Text.line ("built ".toList ++ Text.ofNat n ++ " target(s)".toList) = countLine n := by
  rw [Text.line, Text.ofNat_eq, List.append_assoc _ " target(s)".toList]
  rfl

theorem lines_of_tells {options : List Options} {reports : List Report}
    (h : List.Forall₂ Tells options reports) :
    reports.flatMap Report.line =
      (List.zipWith (fun o report => targetLine o report.cacheLength) options reports).flatten := by
  induction h with
  | nil => rfl
  | cons hfirst _ ih =>
    rw [List.flatMap_cons, ih, line_of_tells hfirst, List.zipWith_cons_cons, List.flatten_cons]

/-- a build for what became of its files -/
def told : Except CommandError (List Report) × Machine → Except CommandError Text × Machine
  | (.error e, m) => (.error e, m)
  | (.ok reports, m) =>
    (.ok (reports.flatMap Report.line ++
      Text.line ("built ".toList ++ Text.ofNat reports.length ++ " target(s)".toList)), m)

theorem told_of_tells {options : List Options} {reports : List Report}
    (h : List.Forall₂ Tells options reports) (m : Machine) :
    told (.ok reports, m) = (.ok (buildText options reports), m) := by
  rw [told, lines_of_tells h, count_eq, buildText, h.length_eq]

/-! ## Targets and hosts -/

/-- the targets in the order of the configuration whose file names contain the filter -/
theorem selectTargets_eq (c : Config) (filter : Option Text) :
    selectTargets c filter =
      c.targets.filter fun t => filter.all fun part => decide (part <:+: t.filename) := by
  cases filter with
  | none => exact (List.filter_eq_self.2 fun t _ => rfl).symm
  | some part =>
    refine List.filter_congr ?_
    intro t _
    exact Bool.eq_iff_iff.2 (Text.contains_iff_infix.trans decide_eq_true_iff.symm)

/-- starting a host changes nothing but the record -/
theorem launch_machine (c : Config) (m : Machine) :
    ∃ record, (launch c m).2 = { m with record := record } := by
  unfold launch HostEngine.launch
  cases m.locateNode c.nodePath with
  | error e => exact ⟨m.record, rfl⟩
  | ok executable =>
    simp only [HostEngine.startDirectory]
    cases m.program m.directory executable with
    | error e => exact ⟨m.record, rfl⟩
    | ok program =>
      simp only
      generalize HostEngine.request .version [] (.start (HostEngine.repliesOf program.behaviour)) =
        answered
      obtain ⟨reply, process, seen⟩ := answered
      cases reply.bind HostEngine.handshake with
      | error e => exact ⟨_, rfl⟩
      | ok versions => exact ⟨_, rfl⟩

theorem launch_files (c : Config) (m : Machine) : (launch c m).2.files = m.files := by
  obtain ⟨record, h⟩ := launch_machine c m
  rw [h]

theorem runBuild_of_nil (h : selectTargets c filter = []) :
    runBuild c filter m = (.error (.nothingToBuild c.root), m) := by
  rw [runBuild, h]
  rfl

/-- a build is what became of its files, told and settled -/
theorem buildsExactly_told (T : Toolchain σ) (m : Machine) (s : σ)
    (settle : Machine → σ → Machine) (options : List Options) :
    BuildsExactly T m s settle options
      (told (let (result, m, s) := T.compileFiles m s options
        (result.mapError .compile, settle m s))) := by
  refine ⟨?_, ?_, T.compileFiles_cases m s options⟩
  · intro reports m₁ s₁ hruns
    rw [compileFiles_of_runs hruns]
    exact ⟨hruns.tells, told_of_tells hruns.tells _⟩
  · intro before o later reports m₁ s₁ e m₂ s₂ hoptions hruns hfile
    rw [hoptions, compileFiles_of_failure hruns hfile]
    rfl

section Resolved

variable {options : List Options}
  (h : ((selectTargets c filter).map fun t => (c.targetDraft t).resolve) = options.map .ok)
  (hne : options ≠ [])
include h hne

theorem runBuild_of_options : runBuild c filter m = told (compileAll c options m) := by
  obtain ⟨o, rest, rfl⟩ := List.exists_cons_of_ne_nil hne
  rw [runBuild, mapM_of_ok h]
  rfl

/-- with isolated compiles only, no host is started -/
theorem runBuild_isolated (hneeds : ¬(options.any fun o => !o.electron) = true) :
    BuildsExactly (⟨none, c.layoutTable, .complete⟩ : Toolchain Unit) m () (fun m _ => m) options
      (runBuild c filter m) := by
  rw [runBuild_of_options h hne, compileAll, if_neg hneeds]
  exact buildsExactly_told _ m () (fun m _ => m) options

theorem runBuild_of_launch_error {e : CommandError}
    (hneeds : (options.any fun o => !o.electron) = true)
    (hlaunch : launch c m = (.error e, m₁)) : runBuild c filter m = (.error e, m₁) := by
  rw [runBuild_of_options h hne, compileAll, if_pos hneeds, hlaunch]
  rfl

/-- with a host, what it saw goes into the record at the end -/
theorem runBuild_of_launch_ok {host : HostEngine}
    (hneeds : (options.any fun o => !o.electron) = true)
    (hlaunch : launch c m = (.ok host, m₁)) :
    BuildsExactly ⟨some HostEngine.engine, c.layoutTable, .complete⟩ m₁ host
      (fun m host => (host.report m).2) options (runBuild c filter m) := by
  rw [runBuild_of_options h hne, compileAll, if_pos hneeds, hlaunch]
  exact buildsExactly_told _ m₁ host (fun m host => (host.report m).2) options

end Resolved

/-- **Builds.** The targets of a build are those whose file name contains the filter, in order, and
the others change nothing. A build that has no target, a target with invalid options, or a host that
is needed and does not start, fails and leaves all files as they were. Any other build compiles its
files one after another, up to the first that fails (`BuildsExactly`). What is printed is the text of
a build that succeeds, and nothing otherwise. -/
theorem runBuild_exact (c : Config) (filter : Option Text) (m : Machine) :
    selectTargets c filter =
      c.targets.filter (fun t => filter.all fun part => decide (part <:+: t.filename)) ∧
    (∀ targets, selectTargets { c with targets := targets } filter = selectTargets c filter →
      runBuild { c with targets := targets } filter m = runBuild c filter m) ∧
    (selectTargets c filter = [] → runBuild c filter m = (.error (.nothingToBuild c.root), m)) ∧
    (∀ before t later e, selectTargets c filter = before ++ t :: later →
      (∀ t' ∈ before, ∃ o, (c.targetDraft t').resolve = .ok o) →
      (c.targetDraft t).resolve = .error e →
      runBuild c filter m = (.error (.compile (.options e)), m)) ∧
    (∀ options, ((selectTargets c filter).map fun t => (c.targetDraft t).resolve) =
        options.map .ok → options ≠ [] →
      if options.any fun o => !o.electron then
        match launch c m with
        | (.error e, m₁) => runBuild c filter m = (.error e, m₁) ∧ m₁.files = m.files
        | (.ok host, m₁) => m₁.files = m.files ∧
          BuildsExactly ⟨some HostEngine.engine, c.layoutTable, .complete⟩ m₁ host
            (fun m host => (host.report m).2) options (runBuild c filter m)
      else
        BuildsExactly (⟨none, c.layoutTable, .complete⟩ : Toolchain Unit) m () (fun m _ => m)
          options (runBuild c filter m)) ∧
    ∀ line : CommandLine, line.command = .build filter → Config.load m line.config = .ok c →
      (line.execute m).1.output = (runBuild c filter m).1.toOption.getD [] ∧
      (line.execute m).1.exitCode = (if (runBuild c filter m).1.isOk then 0 else 1) ∧
      (line.execute m).2 = (runBuild c filter m).2 := by
  refine ⟨selectTargets_eq c filter, ?_, runBuild_of_nil, ?_, ?_, ?_⟩
  · intro targets hsame
    rw [runBuild, hsame]
    rfl
  · intro before t later e hselected hbefore ht
    rw [runBuild, hselected, mapM_of_error hbefore ht]
  · intro options h hne
    have hfiles := launch_files c m
    split_ifs with hneeds
    · rcases hlaunch : launch c m with ⟨e | host, m₁⟩
      · rw [hlaunch] at hfiles
        exact ⟨runBuild_of_launch_error h hne hneeds hlaunch, hfiles⟩
      · rw [hlaunch] at hfiles
        exact ⟨hfiles, runBuild_of_launch_ok h hne hneeds hlaunch⟩
    · exact runBuild_isolated h hne hneeds
  · intro line hcommand hload
    rw [CommandLine.execute, hload, hcommand]
    simp only [execute]
    rcases runBuild c filter m with ⟨e | output, m₁⟩
    · exact ⟨rfl, rfl, rfl⟩
    · exact ⟨rfl, rfl, rfl⟩

/-- a target that is compiled in an isolated process, next to its source -/
def plainTarget (filename : Text) : Target :=
  ⟨filename, none, false, true, none, false, none, none⟩

def plainConfig (targets : List Target) : Config := ⟨none, some "/e", none, none, [], targets, "/"⟩

/-- the second target has no file name, and the source of the third is missing -/
def partialConfig : Config :=
  plainConfig [plainTarget "a.js", plainTarget "..", plainTarget "gone-a.js", plainTarget "later-a.js"]

def wholeConfig : Config := plainConfig [plainTarget "a.js", plainTarget "..", plainTarget "la-b.js"]

def plainMachine : Machine :=
  ⟨⟨[(["e"], .file [] true (some ⟨"e", .compiler ⟨some [1, 2, 3], [], [], 0, false⟩⟩)),
    (["a.js"], .file (Utf8.encode "1") false none),
    (["la-b.js"], .file (Utf8.encode "22") false none)]⟩, [], [], []⟩

def plainOptions (filename : Text) : Options :=
  ⟨filename, "/", false, true, some "/e", false, "loader.js", ".bin"⟩

/-- The filter passes over the invalid target. Of one build the first of the others is compiled and the
second ends it; the other build has a line for each. -/
theorem runBuild_exact_partial :
    (runBuild partialConfig (some "a") plainMachine).1 =
      .error (.compile (.file .read "/gone-a.js" .notFound)) ∧
    (runBuild partialConfig (some "a") plainMachine).2.read "/a.bin" = .ok [1, 2, 3] ∧
    runBuild { partialConfig with targets := partialConfig.targets.eraseIdx 1 } (some "a")
      plainMachine = runBuild partialConfig (some "a") plainMachine ∧
    (runBuild wholeConfig (some "a") plainMachine).1 =
      .ok "/a.js -> /a.bin (3 bytes)\n/la-b.js -> /la-b.bin (3 bytes)\nbuilt 2 target(s)\n" := by
  obtain ⟨-, hothers, -, -, hbuild, -⟩ := runBuild_exact partialConfig (some "a") plainMachine
  have hexact := hbuild
    [plainOptions "/a.js", plainOptions "/gone-a.js", plainOptions "/later-a.js"] rfl (by simp)
  set T : Toolchain Unit := ⟨none, partialConfig.layoutTable, .complete⟩
  set m₁ := (T.compileFile (plainOptions "/a.js") plainMachine ()).2.1
  have hfirst : T.compileFile (plainOptions "/a.js") plainMachine () =
      (.ok ⟨"/a.js", "/a.bin", none, 1, 3⟩, m₁, ()) := rfl
  have hgone : T.compileFile (plainOptions "/gone-a.js") m₁ () =
      (.error (.file .read "/gone-a.js" .notFound), m₁, ()) := rfl
  have hresult := hexact.failure [plainOptions "/a.js"] (plainOptions "/gone-a.js")
    [plainOptions "/later-a.js"] _ m₁ () _ m₁ () rfl (.cons hfirst .nil) hgone
  obtain ⟨-, -, -, -, hwhole, -⟩ := runBuild_exact wholeConfig (some "a") plainMachine
  have hlast : T.compileFile (plainOptions "/la-b.js") m₁ () =
      (.ok ⟨"/la-b.js", "/la-b.bin", none, 2, 3⟩,
        (T.compileFile (plainOptions "/la-b.js") m₁ ()).2.1, ()) := rfl
  obtain ⟨-, hprinted⟩ := (hwhole [plainOptions "/a.js", plainOptions "/la-b.js"] rfl
    (by simp)).success _ _ _ (.cons hfirst (.cons hlast .nil))
  refine ⟨?_, ?_, hothers _ rfl, ?_⟩
  · rw [hresult]
  · rw [hresult]
    rfl
  · rw [hprinted]
    rfl

end Command

end CodeCache
