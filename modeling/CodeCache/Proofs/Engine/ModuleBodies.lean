/-
Module bodies made of assignments, and what the simulated engine makes of them.

Main result, `run_assignments`. A body is a list of assignments of JSON values to the exports or to
one member of them, with semicolons, line ends and blanks between (`ModuleBody`). Once the engine has
compiled such a body, wrapped, running the cache gives what the assignments give from left to right.
A script that is a JSON value gives that value.

The engine cuts a body at semicolons and line ends without looking at the values. What it cuts is
brought in order from left to right (`interpret`): what lies between two statements changes nothing
(`interpret_gap`), a statement is one step (`interpret_statement`), and the induction on the
statements only puts these together. That no cut goes through a value is left to the texts: they
stand on one line (`Json.Exact.oneLine`) and have solid ends (`Json.Exact.solid`).
-/
import CodeCache.Proofs.Engine.SealedCaches
import CodeCache.Proofs.Json.Values
import CodeCache.Proofs.Text.Units

namespace CodeCache

/-! ## Statements and what is between them -/

namespace Statement

/-- a character that ends a statement -/
def isSeparator (c : Char) : Bool := c == ';' || c == '\n'

/-- no statement ends within the text -/
def IsPiece (t : Text) : Prop := ∀ c ∈ t, isSeparator c = false

/-- what may stand between statements -/
def IsGap (t : Text) : Prop := ∀ c ∈ t, isSeparator c = true ∨ Text.isBlank c = true

/-- a name that can be assigned to: no blanks around it, and nothing in it that ends it -/
def IsMemberName (name : Text) : Prop := name.Trimmed ∧ ∀ c ∈ name, c ≠ '=' ∧ c ≠ ';' ∧ c ≠ '\n'

instance (t : Text) : Decidable (IsPiece t) := List.decidableBAll _ t

instance (t : Text) : Decidable (IsGap t) := List.decidableBAll _ t

instance (name : Text) : Decidable (IsMemberName name) :=
  have := List.decidableBAll (fun c => c ≠ '=' ∧ c ≠ ';' ∧ c ≠ '\n') name
  inferInstanceAs (Decidable (name.Trimmed ∧ _))

end Statement

open Statement

/-! ## Assignments -/

/-- a statement that gives a value to the exports or to a member of them -/
structure Assignment where
  /-- the name of the member; none for the exports as a whole -/
  target : Option Text
  value : Json
  canonical : value.Canonical
  undivided : ';' ∉ value.render
  named : ∀ name ∈ target, IsMemberName name

namespace Assignment

/-- what is assigned to -/
def place (a : Assignment) : Text :=
  match a.target with
  | none => "module.exports".toList
  | some name => "exports.".toList ++ name

def text (a : Assignment) : Text := a.place ++ " = ".toList ++ a.value.render

/-- the exports afterwards; only an object gets a member -/
def apply (exports : Json) (a : Assignment) : Json :=
  match a.target, exports with
  | none, _ => a.value
  | some name, .obj members => .obj (Json.insertMember name a.value members)
  | some _, exports => exports

end Assignment

/-! ## Bodies -/

/-- assignments with gaps around them, of which those between two of them end the first one -/
structure ModuleBody where
  lead : Text
  /-- each with the gap behind it -/
  statements : List (Assignment × Text)
  lead_gap : IsGap lead
  gaps : ∀ s ∈ statements, IsGap s.2
  separated : ∀ s ∈ statements.dropLast, s.2.any isSeparator = true

namespace ModuleBody

def text (body : ModuleBody) : Text :=
  body.lead ++ body.statements.flatMap fun s => s.1.text ++ s.2

/-- what the assignments give from left to right, from the empty object on -/
def value (body : ModuleBody) : Json :=
  (body.statements.map Prod.fst).foldl Assignment.apply (.obj [])

end ModuleBody

/-! ## One assignment -/

namespace Assignment

theorem trimmed_text (a : Assignment) : a.text.Trimmed := by
  have hsolid := a.canonical.exact.solid
  rw [text, place]
  cases a.target with
  | none =>
    refine hsolid.trimmed_append ?_ (by decide)
    rintro _ ⟨⟩
    decide
  | some name =>
    refine hsolid.trimmed_append ?_ (by simp)
    rintro _ ⟨⟩
    decide

/-- no cut goes through a statement -/
theorem isPiece_text (a : Assignment) : IsPiece a.text := by
  have hvalue : IsPiece a.value.render := by
    intro c hc
    have hsemicolon : c ≠ ';' := fun h => a.undivided (h ▸ hc)
    have hfeed : c ≠ '\n' := by
      rintro rfl
      exact absurd (a.canonical.exact.oneLine _ hc) (by decide)
    simp [isSeparator, hsemicolon, hfeed]
  have hplace : IsPiece a.place := by
    have hnamed := a.named
    rw [place]
    cases htarget : a.target with
    | none => decide
    | some name =>
      have hword : IsPiece "exports.".toList := by decide
      have hname : IsPiece name := by
        intro c hc
        obtain ⟨-, hsemicolon, hfeed⟩ := (hnamed name htarget).2 c hc
        simp [isSeparator, hsemicolon, hfeed]
      exact List.forall_mem_append.2 ⟨hword, hname⟩
  have hsign : IsPiece " = ".toList := by decide
  exact List.forall_mem_append.2 ⟨List.forall_mem_append.2 ⟨hplace, hsign⟩, hvalue⟩

end Assignment

namespace SimulatedEngine

/-- a statement that assigns to the exports -/
theorem execute_whole (exports : Json) {statement behind : Text} {value : Json}
    (hplace : statement = "module.exports =".toList ++ behind)
    (hvalue : Json.parse? (Text.trim behind) = some value) : execute exports statement = value := by
  have hprefix : "module.exports =".toList.isPrefixOf? statement = some behind :=
    List.isPrefixOf?_eq_some_iff_append_eq.2 hplace.symm
  rw [execute, hprefix]
  simp only [hvalue, Option.getD_some]

/-- a statement that assigns to a member -/
theorem execute_member (exports : Json) {statement before behind : Text} {value : Json}
    (hplace : statement = "exports.".toList ++ (before ++ '=' :: behind)) (hsign : '=' ∉ before)
    (hvalue : Json.parse? (Text.trim behind) = some value) :
    execute exports statement =
      match exports with
      | .obj members => .obj (Json.insertMember (Text.trim before) value members)
      | exports => exports := by
  have hother : "module.exports =".toList.isPrefixOf? statement = none := by
    rw [hplace]
    rfl
  have hprefix : "exports.".toList.isPrefixOf? statement = some (before ++ '=' :: behind) :=
    List.isPrefixOf?_eq_some_iff_append_eq.2 hplace.symm
  rw [execute, hother, hprefix, Option.bind_some, Text.splitFirst?_append hsign]
  simp only [hvalue]
  cases exports <;> rfl

/-- **One statement is executed as its assignment.** -/
theorem execute_text (exports : Json) (a : Assignment) : execute exports a.text = a.apply exports := by
  obtain ⟨target, value, hcanonical, -, hnamed⟩ := a
  have hblank : Text.Blank [' '] := by decide
  have hvalue : Json.parse? (Text.trim (' ' :: value.render)) = some value := by
    rw [← List.singleton_append, Text.trim_append_left hblank,
      Text.trim_of_trimmed hcanonical.exact.solid.trimmed, hcanonical.parse?_render]
  cases target with
  | none => exact execute_whole exports rfl hvalue
  | some name =>
    obtain ⟨htrimmed, hplain⟩ := hnamed name rfl
    have hplace : "exports.".toList ++ name ++ " = ".toList ++ value.render =
        "exports.".toList ++ ((name ++ [' ']) ++ '=' :: ' ' :: value.render) := by
      simp
    have hsign : '=' ∉ name ++ [' '] := by
      rw [List.mem_append, List.mem_singleton]
      rintro (hc | hc)
      · exact (hplain _ hc).1 rfl
      · exact absurd hc (by decide)
    have hname : Text.trim (name ++ [' ']) = name := by
      rw [Text.trim_append_right name hblank, Text.trim_of_trimmed htrimmed]
    rw [Assignment.text, Assignment.place, execute_member exports hplace hsign hvalue, hname]
    cases exports <;> rfl

/-! ## From left to right -/

/-- the exports after the statements of a text -/
def interpret (exports : Json) (t : Text) : Json :=
  ((Text.splitWhere isSeparator t).map Text.trim).foldl execute exports

theorem moduleValue_eq (body : Text) : moduleValue body = interpret (.obj []) body := rfl

theorem interpret_piece (exports : Json) {piece : Text} (h : IsPiece piece) :
    interpret exports piece = execute exports (Text.trim piece) := by
  rw [interpret, Text.splitWhere_of_piece h]
  rfl

theorem interpret_piece_cons (exports : Json) {piece : Text} (h : IsPiece piece) {c : Char}
    (hc : isSeparator c = true) (rest : Text) :
    interpret exports (piece ++ c :: rest) = interpret (execute exports (Text.trim piece)) rest := by
  rw [interpret, Text.splitWhere_append_cons h hc, List.map_cons, List.foldl_cons, interpret]

theorem interpret_filler (exports : Json) {c : Char}
    (hc : isSeparator c = true ∨ Text.isBlank c = true) (t : Text) :
    interpret exports (c :: t) = interpret exports t := by
  by_cases hsep : isSeparator c = true
  · exact interpret_piece_cons exports (List.forall_mem_nil _) hsep t
  · have hblank : Text.Blank [c] := by simpa [Text.Blank] using hc.resolve_left hsep
    have htrim : ∀ piece, Text.trim (c :: piece) = Text.trim piece :=
      fun piece => Text.trim_append_left hblank piece
    rw [interpret, interpret, Text.splitWhere, if_neg hsep]
    cases Text.splitWhere isSeparator t with
    | nil => rw [Text.pushFirst, List.map_singleton, htrim]; rfl
    | cons piece pieces => rw [Text.pushFirst, List.map_cons, List.map_cons, htrim]

/-- what lies in front of a statement changes nothing -/
theorem interpret_gap (exports : Json) {gap : Text} (h : IsGap gap) (t : Text) :
    interpret exports (gap ++ t) = interpret exports t := by
  induction gap with
  | nil => rfl
  | cons c gap ih =>
    obtain ⟨hc, hgap⟩ := List.forall_mem_cons.1 h
    rw [List.cons_append, interpret_filler exports hc, ih hgap]

/-- a statement that ends here is executed, and then what comes next -/
theorem interpret_statement (exports : Json) (a : Assignment) {spaces rest : Text}
    (hblank : spaces.Blank) (hspaces : IsPiece spaces)
    (hrest : ∀ c ∈ rest.head?, isSeparator c = true) :
    interpret exports (a.text ++ spaces ++ rest) = interpret (a.apply exports) rest := by
  have hpiece : IsPiece (a.text ++ spaces) :=
    List.forall_mem_append.2 ⟨a.isPiece_text, hspaces⟩
  have hexecute : execute exports (Text.trim (a.text ++ spaces)) = a.apply exports := by
    rw [Text.trim_append_right _ hblank, Text.trim_of_trimmed a.trimmed_text, execute_text]
  cases rest with
  | nil =>
    rw [List.append_nil, interpret_piece exports hpiece, hexecute]
    rfl
  | cons c rest =>
    have hc := hrest c rfl
    rw [interpret_piece_cons exports hpiece hc, hexecute, interpret_filler _ (.inl hc)]

/-- the spaces of a gap up to where the statement in front of it ends -/
theorem exists_spaces {gap : Text} (h : IsGap gap) :
    ∃ spaces more, gap = spaces ++ more ∧ spaces.Blank ∧ IsPiece spaces ∧ IsGap more ∧
      ∀ c ∈ more.head?, isSeparator c = true := by
  have hpiece : IsPiece (gap.takeWhile (!isSeparator ·)) := by
    intro c hc
    simpa using List.mem_takeWhile_imp hc
  refine ⟨gap.takeWhile (!isSeparator ·), gap.dropWhile (!isSeparator ·), ?_, ?_, hpiece, ?_, ?_⟩
  · exact List.takeWhile_append_dropWhile.symm
  · intro c hc
    have hmem : c ∈ gap := (List.takeWhile_sublist _).subset hc
    exact (h c hmem).resolve_left (by simp [hpiece c hc])
  · intro c hc
    exact h c ((List.dropWhile_sublist _).subset hc)
  · intro c hc
    simpa using Text.head?_dropWhile hc

/-- **A run over the statements of a body.** -/
theorem interpret_statements (exports : Json) {statements : List (Assignment × Text)}
    (hgaps : ∀ s ∈ statements, IsGap s.2)
    (hseparated : ∀ s ∈ statements.dropLast, s.2.any isSeparator = true) :
    interpret exports (statements.flatMap fun s => s.1.text ++ s.2) =
      (statements.map Prod.fst).foldl Assignment.apply exports := by
  induction statements generalizing exports with
  | nil => rfl
  | cons s statements ih =>
    obtain ⟨a, gap⟩ := s
    obtain ⟨hgap, hothers⟩ := List.forall_mem_cons.1 hgaps
    obtain ⟨spaces, more, rfl, hblank, hspaces, hmore, hends⟩ := exists_spaces hgap
    set rest := statements.flatMap fun s => s.1.text ++ s.2 with hrest
    -- behind the spaces, either the body ends or the statement does
    have hnext : ∀ c ∈ (more ++ rest).head?, isSeparator c = true := by
      cases statements with
      | nil => simpa [hrest] using hends
      | cons next statements =>
        have hany : (spaces ++ more).any isSeparator = true :=
          hseparated (a, spaces ++ more) List.mem_cons_self
        have hnonempty : more ≠ [] := by
          rintro rfl
          obtain ⟨c, hc, hsep⟩ := List.any_eq_true.1 hany
          rw [List.append_nil] at hc
          rw [hspaces c hc] at hsep
          cases hsep
        rwa [List.head?_append_of_ne_nil _ hnonempty]
    have hlater : ∀ s ∈ statements.dropLast, s.2.any isSeparator = true := by
      intro s hs
      refine hseparated s ?_
      cases statements with
      | nil => exact absurd hs List.not_mem_nil
      | cons next statements => exact List.mem_cons_of_mem _ hs
    calc interpret exports (((a, spaces ++ more) :: statements).flatMap fun s => s.1.text ++ s.2)
        = interpret exports (a.text ++ spaces ++ (more ++ rest)) := by simp [hrest]
      _ = interpret (a.apply exports) (more ++ rest) :=
        interpret_statement exports a hblank hspaces hnext
      _ = interpret (a.apply exports) rest := interpret_gap _ hmore rest
      _ = (statements.map Prod.fst).foldl Assignment.apply (a.apply exports) := ih _ hothers hlater

theorem moduleValue_text (body : ModuleBody) : moduleValue body.text = body.value := by
  rw [moduleValue_eq, ModuleBody.text, interpret_gap _ body.lead_gap,
    interpret_statements _ body.gaps body.separated, ModuleBody.value]

/-! ## Scripts -/

/-- semicolons inside the value are left alone, as its text has solid ends -/
theorem scriptValue_render {lead trail : Text} {value : Json} (hlead : lead.Blank)
    (htrail : trail.Blank) (hvalue : value.Canonical) (n : Nat) :
    scriptValue (lead ++ (value.render ++ List.replicate n ';') ++ trail) = value := by
  have hsolid := hvalue.exact.solid
  have hsemicolon : ∀ c ∈ List.replicate n ';', (c == ';') = true := by simp
  have hplain : ∀ c ∈ List.replicate n ';', Text.isBlank c = false := by
    intro c hc
    rw [List.eq_of_mem_replicate hc]
    decide
  have htrimmed : Text.Trimmed (value.render ++ List.replicate n ';') :=
    hsolid.trimmed.append (Text.trimmed_of_forall hplain)
  have hend : ∀ c ∈ value.render.getLast?, (c == ';') = false := by
    intro c hc
    exact beq_eq_false_iff_ne.2 (Json.isSolid_iff.1 (hsolid.last_solid c hc)).2
  rw [scriptValue, Text.trim_around hlead htrimmed htrail, Text.trimEnd_append hend hsemicolon,
    hvalue.parse?_render, Option.getD_some]

/-! ## Runs -/

/-- a member that is assigned to is there afterwards, and hides none but the one of the same name -/
theorem member?_apply {a : Assignment} {name : Text} (h : a.target = some name)
    (members : List (Text × Json)) (other : Text) :
    (a.apply (.obj members)).member? other =
      if other = name then some a.value else (Json.obj members).member? other := by
  simp only [Assignment.apply, h]
  exact Json.member?_insertMember name other a.value members

/-- **Programs of JSON values give what they say.** If a body of assignments, wrapped, is compiled,
then a run of its cache as a module, with any placeholder of the declared length, completes with the
value of the assignments from left to right; the last assignment to a member counts. If a JSON value
with blanks around it, and semicolons directly behind it, is compiled, then a run of its cache as a
script completes with the value. -/
theorem run_assignments {e f : SimulatedEngine} (hbuild : f.build = e.build) :
    (∀ (body : ModuleBody) data, (e.compile (ModuleWrapper.wrap body.text)).1 = .ok data →
      ∃ length, Header.declaredLength data = .ok length ∧
        ∀ filename placeholder, Text.units placeholder = length.toNat →
          (f.run ⟨filename, placeholder, data, .module⟩).1 = .ok (.completed body.value)) ∧
    (∀ lead value n trail data, Text.Blank lead → Json.Canonical value → Text.Blank trail →
      (e.compile (lead ++ (value.render ++ List.replicate n ';') ++ trail)).1 = .ok data →
      ∃ length, Header.declaredLength data = .ok length ∧
        ∀ filename placeholder, Text.units placeholder = length.toNat →
          (f.run ⟨filename, placeholder, data, .script⟩).1 = .ok (.completed value)) ∧
    ∀ (a : Assignment) name members other, a.target = some name →
      (a.apply (.obj members)).member? other =
        if other = name then some a.value else (Json.obj members).member? other := by
  refine ⟨?_, ?_, ?_⟩
  · intro body data hcompile
    obtain ⟨length, hlength, hrun⟩ := run_compiled hbuild hcompile
    refine ⟨length, hlength, ?_⟩
    intro filename placeholder hplaceholder
    rw [hrun filename placeholder .module hplaceholder, evaluate_wrapped e.length_fingerprint,
      moduleValue_text]
    rfl
  · intro lead value n trail data hlead hvalue htrail hcompile
    obtain ⟨length, hlength, hrun⟩ := run_compiled hbuild hcompile
    refine ⟨length, hlength, ?_⟩
    intro filename placeholder hplaceholder
    rw [hrun filename placeholder .script hplaceholder, evaluate_sealed e.length_fingerprint,
      scriptValue_render hlead htrail hvalue]
    rfl
  · intro a name members other htarget
    exact member?_apply htarget members other

/-- exports replaced, members added and one of them assigned twice; brackets inside strings and
semicolons in every place where they may stand -/
def mixedBody : ModuleBody where
  lead := "; "
  statements := [
    (⟨none, .obj [("c", .int (-1))],
      ⟨.obj (List.forall_mem_singleton.2 (.int (by decide) (by decide))),
        .obj (List.pairwise_singleton _ _) (List.forall_mem_singleton.2 (.int _))⟩,
      by decide, by decide⟩, " ;\n"),
    (⟨some "a", .str "(\x7b", ⟨.str _, .str _⟩, by decide, by decide⟩, "\n\n "),
    (⟨some "b c", .bool true, ⟨.bool _, .bool _⟩, by decide, by decide⟩, ";"),
    (⟨some "a", .str "\x7d)", ⟨.str _, .str _⟩, by decide, by decide⟩, " ")]
  lead_gap := by decide
  gaps := by decide
  separated := by decide

/-- the body, and a script whose string holds a semicolon, with the placeholders of their lengths -/
theorem run_assignments_mixed :
    (∃ data, (standard.compile (ModuleWrapper.wrap mixedBody.text)).1 = .ok data ∧
      (standard.run ⟨"a.bin", Placeholder.source 151, data, .module⟩).1 =
        .ok (.completed (.obj [("a", .str "\x7d)"), ("b c", .bool true), ("c", .int (-1))]))) ∧
    ∃ data, (standard.compile " \"a;b\";;\n".toList).1 = .ok data ∧
      (standard.run ⟨"b.bin", Placeholder.source 9, data, .script⟩).1 =
        .ok (.completed (.str "a;b")) := by
  have hlength := standard.length_fingerprint
  constructor
  · have hbalanced : balanced 0 (ModuleWrapper.wrap mixedBody.text) = true := by decide +kernel
    have hcompile : (standard.compile (ModuleWrapper.wrap mixedBody.text)).1 =
        .ok (standard.cacheOf (ModuleWrapper.wrap mixedBody.text)) := by
      rw [compile, if_pos hbalanced]
    have hvalue : mixedBody.value =
        .obj [("a", .str "\x7d)"), ("b c", .bool true), ("c", .int (-1))] := by rfl
    have hunits : Text.units (ModuleWrapper.wrap mixedBody.text) = 151 := by decide +kernel
    obtain ⟨length, hdeclared, hrun⟩ := (run_assignments rfl).1 mixedBody _ hcompile
    rw [cacheOf_eq_sealed, declaredLength_sealed _ hlength, hunits] at hdeclared
    obtain rfl := Except.ok.inj hdeclared
    refine ⟨_, hcompile, ?_⟩
    rw [← hvalue]
    exact hrun "a.bin" (Placeholder.source 151) (Placeholder.units_source 151)
  · have hcompile : (standard.compile " \"a;b\";;\n".toList).1 =
        .ok (standard.cacheOf " \"a;b\";;\n".toList) := by rfl
    obtain ⟨length, hdeclared, hrun⟩ := (run_assignments rfl).2.1 " ".toList (.str "a;b") 2
      "\n".toList _ (by decide) ⟨.str _, .str _⟩ (by decide) hcompile
    rw [cacheOf_eq_sealed, declaredLength_sealed _ hlength] at hdeclared
    obtain rfl := Except.ok.inj hdeclared
    exact ⟨_, hcompile, hrun "b.bin" (Placeholder.source 9) (Placeholder.units_source 9)⟩

end SimulatedEngine

end CodeCache
