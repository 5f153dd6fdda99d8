/-
Line numbers of a script, from its file to what the engine compiles.

A script is cut at every line end, so a carriage return in front of a line feed leaves an empty line
between them; the file and the prepared source are cut alike. An interpreter line is emptied and
keeps its line end (`lines_stripInterpreter`), and a module gets its head on the first line and its
tail on a line of its own (`lines_wrap`). Neither of the texts that come and go has a line end that
would move another line (`lines_append`, `lineOf_append`).

Main result, `prepare_keepsLines`: behind the first line, line i of the file is line i of what is
compiled, and what is left of the file stands there whole, every character on its own line.
-/
import Mathlib.Tactic
import CodeCache.Source

namespace CodeCache.Source

/-! ## Lines -/

/-- the lines of a script, without their ends -/
def lines (t : Text) : List Text := t.splitOnP isLineEnd

/-- the line that a position is on, counted from 0 -/
def lineOf (t : Text) (position : Nat) : Nat := (t.take position).countP isLineEnd

/-- the text lies on one line -/
def OneLine (t : Text) : Prop := ∀ c ∈ t, isLineEnd c = false

instance (t : Text) : Decidable (OneLine t) := List.decidableBAll _ t

variable {s t : Text} {c : Char}

theorem lines_cons (hc : isLineEnd c = true) (t : Text) : lines (c :: t) = [] :: lines t := by
  rw [lines, List.splitOnP_cons_eq_if_modifyHead, if_pos hc, lines]

/-- what has no line end goes in front of the first line -/
theorem lines_append (hs : OneLine s) (t : Text) :
    lines (s ++ t) = (lines t).modifyHead (s ++ ·) := by
  induction s with
  | nil => exact (congrFun List.modifyHead_id (lines t)).symm
  | cons c s ih =>
    obtain ⟨hc, hs⟩ := List.forall_mem_cons.1 hs
    rw [List.cons_append, lines, List.splitOnP_cons_eq_if_modifyHead, if_neg (by simp [hc]), ← lines,
      ih hs, List.modifyHead_modifyHead]
    rfl

theorem filter_of_oneLine (hs : OneLine s) : s.filter isLineEnd = [] :=
  List.filter_eq_nil_iff.2 fun c hc => by simp [hs c hc]

/-- what has no line end moves positions along their lines -/
theorem lineOf_append (hs : OneLine s) (t : Text) (n : Nat) :
    lineOf (s ++ t) (s.length + n) = lineOf t n := by
  have hnone : s.countP isLineEnd = 0 := List.countP_eq_zero.2 fun c hc => by simp [hs c hc]
  rw [lineOf, List.take_length_add_append, List.countP_append, hnone, Nat.zero_add, lineOf]

theorem lineOf_append_left {n : Nat} (hn : n ≤ t.length) (u : Text) :
    lineOf (t ++ u) n = lineOf t n := by
  rw [lineOf, List.take_append_of_le_length hn, lineOf]

/-! ## Interpreter lines -/

/-- the script asks for an interpreter -/
def Interpreted (t : Text) : Prop := ['#', '!'] <+: t

instance (t : Text) : Decidable (Interpreted t) := inferInstanceAs (Decidable (['#', '!'] <+: t))

/-- nothing, or the end of an empty line -/
def StartsEmpty (t : Text) : Prop := ∀ c ∈ t.head?, isLineEnd c = true

theorem stripInterpreter_of_not (h : ¬Interpreted s) : stripInterpreter s = s := by
  unfold stripInterpreter
  cases hrest : ['#', '!'].isPrefixOf? s with
  | none => rfl
  | some rest => exact absurd ⟨rest, List.isPrefixOf?_eq_some_iff_append_eq.1 hrest⟩ h

/-- the interpreter line goes up to its end, and what stays begins there -/
theorem stripInterpreter_spec (h : Interpreted s) :
    StartsEmpty (stripInterpreter s) ∧ ∃ line, OneLine line ∧ s = line ++ stripInterpreter s := by
  obtain ⟨rest, rfl⟩ := h
  have hstrip : stripInterpreter (['#', '!'] ++ rest) = rest.dropWhile fun c => !isLineEnd c := rfl
  rw [hstrip]
  constructor
  · intro c hc
    have hfirst := List.head?_dropWhile_not (fun c => !isLineEnd c) rest
    rw [Option.mem_def.1 hc] at hfirst
    simpa using hfirst
  · refine ⟨['#', '!'] ++ rest.takeWhile fun c => !isLineEnd c, ?_, ?_⟩
    · have hmarks : OneLine ['#', '!'] := by decide
      refine List.forall_mem_append.2 ⟨hmarks, fun c hc => ?_⟩
      simpa using List.all_eq_true.1 (List.all_takeWhile (l := rest)) c hc
    · rw [List.append_assoc, List.takeWhile_append_dropWhile]

theorem exists_line (s : Text) : ∃ line, OneLine line ∧ s = line ++ stripInterpreter s := by
  by_cases h : Interpreted s
  · exact (stripInterpreter_spec h).2
  · exact ⟨[], by decide, by rw [stripInterpreter_of_not h, List.nil_append]⟩

theorem StartsEmpty.not_interpreted (h : StartsEmpty t) : ¬Interpreted t := by
  rintro ⟨rest, rfl⟩
  exact absurd (h '#' rfl) (by decide)

theorem StartsEmpty.lines_eq (h : StartsEmpty t) : ∃ rest, lines t = [] :: rest := by
  cases t with
  | nil => exact ⟨[], rfl⟩
  | cons c t => exact ⟨lines t, lines_cons (h c rfl) t⟩

theorem stripInterpreter_stripInterpreter (s : Text) :
    stripInterpreter (stripInterpreter s) = stripInterpreter s := by
  by_cases h : Interpreted s
  · exact stripInterpreter_of_not (stripInterpreter_spec h).1.not_interpreted
  · rw [stripInterpreter_of_not h, stripInterpreter_of_not h]

/-- **Only the first line changes**: that of an interpreter is left empty -/
theorem lines_stripInterpreter (s : Text) :
    ∃ first rest, lines s = first :: rest ∧
      lines (stripInterpreter s) = (if Interpreted s then [] else first) :: rest := by
  by_cases h : Interpreted s
  · obtain ⟨hempty, line, hline, hs⟩ := stripInterpreter_spec h
    obtain ⟨rest, hrest⟩ := hempty.lines_eq
    refine ⟨line, rest, ?_, by rw [if_pos h, hrest]⟩
    calc lines s = lines (line ++ stripInterpreter s) := by rw [← hs]
      _ = ([] :: rest).modifyHead (line ++ ·) := by rw [lines_append hline, hrest]
      _ = line :: rest := by rw [List.modifyHead_cons, List.append_nil]
  · obtain ⟨first, rest, hlines⟩ :=
      List.exists_cons_of_ne_nil (List.splitOnP_ne_nil isLineEnd s)
    exact ⟨first, rest, hlines, by rw [if_neg h, stripInterpreter_of_not h]; exact hlines⟩

theorem filter_stripInterpreter (s : Text) :
    (stripInterpreter s).filter isLineEnd = s.filter isLineEnd := by
  obtain ⟨line, hline, hs⟩ := exists_line s
  conv_rhs => rw [hs, List.filter_append, filter_of_oneLine hline, List.nil_append]

/-! ## Modules -/

theorem oneLine_head : OneLine ModuleWrapper.head := by decide

/-- a module begins on the first line of its body and ends on a line behind the last one -/
theorem lines_wrap (body : Text) :
    lines (ModuleWrapper.wrap body) =
      (lines body).modifyHead (ModuleWrapper.head ++ ·) ++ ["\x7d);".toList] := by
  have htail : ModuleWrapper.tail = '\n' :: "\x7d);".toList := rfl
  have hclosing : OneLine "\x7d);".toList := by decide
  have hlast : lines "\x7d);".toList = ["\x7d);".toList] :=
    List.splitOnP_eq_singleton fun c hc => by simp [hclosing c hc]
  calc lines (ModuleWrapper.wrap body)
      = lines (ModuleWrapper.head ++ body) ++ lines "\x7d);".toList := by
        rw [ModuleWrapper.wrap, htail]
        exact List.splitOnP_append_cons _ _ (by decide)
    _ = _ := by rw [lines_append oneLine_head, hlast]

/-- **Lines keep their numbers.** A script and what is left of it without its interpreter have the
same number of lines, and the same lines behind the first, which an interpreter leaves empty; a
second interpreter is none. A module has the head of its wrapper in front of the first line, and one
line more. Line ends are the same, one by one. So in either mode, every line behind the first is the
line of the same number in the file, and what is left of the file is there as it stands, each position
of it on the line that it has in the file. -/
theorem prepare_keepsLines (s : Text) :
    (lines (stripInterpreter s)).length = (lines s).length ∧
    (lines (stripInterpreter s)).tail = (lines s).tail ∧
    (lines (stripInterpreter s)).head? = (if Interpreted s then some [] else (lines s).head?) ∧
    stripInterpreter (stripInterpreter s) = stripInterpreter s ∧
    lines (prepare true s) =
      (lines (stripInterpreter s)).modifyHead (ModuleWrapper.head ++ ·) ++ ["\x7d);".toList] ∧
    ∀ asModule,
      (prepare asModule s).filter isLineEnd =
        s.filter isLineEnd ++ (if asModule then ['\n'] else []) ∧
      (∀ i, 0 < i → i < (lines s).length → (lines (prepare asModule s))[i]? = (lines s)[i]?) ∧
      ∃ line before after, s = line ++ stripInterpreter s ∧
        prepare asModule s = before ++ stripInterpreter s ++ after ∧
        ∀ n ≤ (stripInterpreter s).length,
          lineOf (prepare asModule s) (before.length + n) = lineOf s (line.length + n) := by
  obtain ⟨first, rest, hlines, hstripped⟩ := lines_stripInterpreter s
  obtain ⟨line, hline, hs⟩ := exists_line s
  have hmodule : lines (prepare true s) =
      (lines (stripInterpreter s)).modifyHead (ModuleWrapper.head ++ ·) ++ ["\x7d);".toList] :=
    lines_wrap (stripInterpreter s)
  refine ⟨by rw [hlines, hstripped]; rfl, by rw [hlines, hstripped]; rfl,
    by rw [hlines, hstripped]; split_ifs <;> rfl, stripInterpreter_stripInterpreter s, hmodule, ?_⟩
  intro asModule
  cases asModule with
  | false =>
    have hprepare : prepare false s = stripInterpreter s := rfl
    refine ⟨by rw [hprepare, filter_stripInterpreter]; simp, ?_,
      line, [], [], hs, by simp [hprepare], ?_⟩
    · intro i hi _
      obtain ⟨i, rfl⟩ := Nat.exists_eq_add_of_lt hi
      rw [hprepare, hlines, hstripped]
      simp
    · intro n _
      conv_rhs => rw [hs, lineOf_append hline]
      rw [hprepare, List.length_nil, Nat.zero_add]
  | true =>
    have hprepare : prepare true s = ModuleWrapper.head ++ stripInterpreter s ++ ModuleWrapper.tail :=
      rfl
    have htail : ModuleWrapper.tail.filter isLineEnd = ['\n'] := by decide
    refine ⟨?_, ?_, line, ModuleWrapper.head, ModuleWrapper.tail, hs, hprepare, ?_⟩
    · rw [hprepare, List.filter_append, List.filter_append, filter_of_oneLine oneLine_head,
        List.nil_append, filter_stripInterpreter, htail]
      rfl
    · intro i hi hlast
      obtain ⟨i, rfl⟩ := Nat.exists_eq_add_of_lt hi
      rw [hlines, List.length_cons] at hlast
      rw [hmodule, hlines, hstripped, List.modifyHead_cons, List.cons_append, Nat.zero_add,
        List.getElem?_cons_succ, List.getElem?_cons_succ, List.getElem?_append_left (by omega)]
    · intro n hn
      conv_rhs => rw [hs, lineOf_append hline]
      rw [hprepare, List.append_assoc, lineOf_append oneLine_head, lineOf_append_left hn]

/-- two interpreter lines, of which the first ends in two line ends -/
def twiceInterpreted : Text := "#!/usr/bin/env node\r\n#!b\u2028x"

/-- the second interpreter line stays on line 2 of the module, and the `x` on line 3 -/
theorem prepare_keepsLines_twice :
    (lines (prepare true twiceInterpreted))[2]? = some "#!b".toList ∧
    ∃ line before after, twiceInterpreted = line ++ stripInterpreter twiceInterpreted ∧
      prepare true twiceInterpreted = before ++ "\r\n#!b\u2028x".toList ++ after ∧
      lineOf (prepare true twiceInterpreted) (before.length + 6) = 3 := by
  obtain ⟨-, -, -, -, -, hmodes⟩ := prepare_keepsLines twiceInterpreted
  obtain ⟨-, hlines, line, before, after, hs, hprepare, hpositions⟩ := hmodes true
  have hline : line.length = 19 := by
    have hlength := congrArg List.length hs
    rw [List.length_append] at hlength
    have hwhole : twiceInterpreted.length = 26 := rfl
    have hleft : (stripInterpreter twiceInterpreted).length = 7 := rfl
    omega
  refine ⟨(hlines 2 (by decide) (by decide)).trans rfl, line, before, after, hs, hprepare, ?_⟩
  rw [hpositions 6 (by decide), hline]
  rfl

end CodeCache.Source
