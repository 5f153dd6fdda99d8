/-
What a compiler process hands back.

Main result, `Isolated.compile_exact`. The messages are told from the bytes of the channel in three
steps, none of which mentions how they are read: which lines the bytes are (`Lined`), which of the
lines carry a message (`Collected`), and what it is (`Carries`). The cache is what was written to the
standard output, and nothing else the process does changes it.

A sender that writes one value a line is understood (`messages_render`).
-/
import CodeCache.Isolated.Compiler
import CodeCache.Proofs.Json.Values
import CodeCache.Proofs.Text.Trimming
import CodeCache.Proofs.Text.Utf8

namespace CodeCache

namespace Channel

/-! ## Lines -/

/-- the bytes are these lines: a line ends at a line feed, and one carriage return in front of it
belongs to the end; what is behind the last line feed is a line if there is anything -/
inductive Lined : Bytes → List Bytes → Prop where
  | done : Lined [] []
  | unended {line} : line ≠ [] → 10 ∉ line → Lined line [line]
  | ended {line rest ls} : 10 ∉ line → line.getLast? ≠ some 13 → Lined rest ls →
    Lined (line ++ 10 :: rest) (line :: ls)
  | returned {line rest ls} : 10 ∉ line → Lined rest ls →
    Lined (line ++ 13 :: 10 :: rest) (line :: ls)

variable {channel line rest : Bytes} {ls : List Bytes}

theorem cut_ne_nil (bs : Bytes) : cut bs ≠ [] := by
  cases bs with
  | nil => exact List.cons_ne_nil _ _
  | cons b bs =>
    rw [cut]
    split_ifs
    · exact List.cons_ne_nil _ _
    · cases cut bs <;> exact List.cons_ne_nil _ _

theorem cut_of_not_mem (h : 10 ∉ line) : cut line = [line] := by
  induction line with
  | nil => rfl
  | cons b line ih =>
    obtain ⟨hb, hline⟩ := not_or.1 (mt List.mem_cons.2 h)
    rw [cut, if_neg (Ne.symm hb), ih hline]
    rfl

theorem cut_append (h : 10 ∉ line) (rest : Bytes) : cut (line ++ 10 :: rest) = line :: cut rest := by
  induction line with
  | nil => rfl
  | cons b line ih =>
    obtain ⟨hb, hline⟩ := not_or.1 (mt List.mem_cons.2 h)
    rw [List.cons_append, cut, if_neg (Ne.symm hb), ih hline]
    rfl

theorem lines_of_not_mem (hne : line ≠ []) (h : 10 ∉ line) : lines line = [line] := by
  rw [lines, cut_of_not_mem h, close, if_neg (by simpa using hne)]

theorem lines_append (h : 10 ∉ line) (rest : Bytes) :
    lines (line ++ 10 :: rest) = withoutReturn line :: lines rest := by
  obtain ⟨next, more, hcut⟩ := List.exists_cons_of_ne_nil (cut_ne_nil rest)
  rw [lines, lines, cut_append h, hcut, close]
  exact List.cons_ne_nil _ _

theorem withoutReturn_of_ne (h : line.getLast? ≠ some 13) : withoutReturn line = line := by
  rw [withoutReturn, if_neg (by simpa using h)]

theorem withoutReturn_append (line : Bytes) : withoutReturn (line ++ [13]) = line := by
  simp [withoutReturn]

theorem Lined.lines_eq (h : Lined channel ls) : lines channel = ls := by
  induction h with
  | done => rfl
  | unended hne h => exact lines_of_not_mem hne h
  | ended h hlast _ ih => rw [lines_append h, withoutReturn_of_ne hlast, ih]
  | @returned line rest ls h _ ih =>
    have hreturn : 10 ∉ line ++ [13] := by simp [h]
    have hlines := lines_append hreturn rest
    rwa [List.append_assoc, List.singleton_append, withoutReturn_append, ih] at hlines

theorem lined_lines (channel : Bytes) : Lined channel (lines channel) := by
  induction hn : channel.length using Nat.strong_induction_on generalizing channel with
  | _ n ih =>
    by_cases hmem : 10 ∈ channel
    · obtain ⟨line, rest, rfl, hline⟩ := List.eq_append_cons_of_mem hmem
      have hrest : Lined rest (lines rest) := ih rest.length (by simp at hn; omega) rest rfl
      rw [lines_append hline]
      by_cases hlast : line.getLast? = some 13
      · obtain ⟨front, rfl⟩ := List.getLast?_eq_some_iff.1 hlast
        have hfront : 10 ∉ front := fun h => hline (List.mem_append_left _ h)
        rw [withoutReturn_append, List.append_assoc]
        exact .returned hfront hrest
      · rw [withoutReturn_of_ne hlast]
        exact .ended hline hlast hrest
    · cases channel with
      | nil => exact .done
      | cons b channel =>
        rw [lines_of_not_mem (List.cons_ne_nil _ _) hmem]
        exact .unended (List.cons_ne_nil _ _) hmem

/-- **Every channel is lines in one way** -/
theorem lines_eq_iff : lines channel = ls ↔ Lined channel ls :=
  ⟨fun h => h ▸ lined_lines channel, Lined.lines_eq⟩

/-! ## Messages -/

/-- the message of a line: its value if the whole line is one JSON text, and else the line -/
inductive Carries (t : Text) : Json → Prop where
  | value {v} : Json.Says t v → Carries t v
  | text : (∀ v, ¬Json.Says t v) → Carries t (.str t)

/-- the messages of lines: one for each line that is not blank, in order, of the lines in front of
the first that is no text -/
def Collected (ls : List Bytes) (ms : List Json) : Prop :=
  ∃ (texts : List Text) (rest : List Bytes), ls = texts.map Utf8.encode ++ rest ∧
    (∀ line ∈ rest.head?, ∀ t, line ≠ Utf8.encode t) ∧
    List.Forall₂ Carries (texts.filter fun t => ¬t.Blank) ms

variable {t : Text} {v : Json} {ms : List Json}

theorem message_eq_iff : message t = v ↔ Carries t v := by
  rw [message]
  cases hparse : Json.parse? t with
  | some value =>
    have hsays : Json.Says t value := Json.parse?_eq_some_iff.1 hparse
    constructor
    · rintro rfl
      exact .value hsays
    · rintro (hv | hnone)
      · exact Option.some.inj (hparse.symm.trans (Json.parse?_eq_some_iff.2 hv))
      · exact absurd hsays (hnone value)
  | none =>
    have hnone : ∀ v, ¬Json.Says t v := by
      intro v hv
      rw [Json.parse?_eq_some_iff.2 hv] at hparse
      cases hparse
    constructor
    · rintro rfl
      exact .text hnone
    · rintro (hv | -)
      · exact absurd hv (hnone v)
      · rfl

theorem forall₂_carries_iff {texts : List Text} :
    List.Forall₂ Carries texts ms ↔ texts.map message = ms := by
  rw [← List.forall₂_eq_eq_eq, List.forall₂_map_left_iff]
  simp only [message_eq_iff]

/-- where the reading ends -/
theorem exists_texts (ls : List Bytes) :
    ∃ (texts : List Text) (rest : List Bytes), ls = texts.map Utf8.encode ++ rest ∧
      ∀ line ∈ rest.head?, ∀ t, line ≠ Utf8.encode t := by
  induction ls with
  | nil => exact ⟨[], [], rfl, by simp⟩
  | cons line ls ih =>
    by_cases hline : ∃ t, line = Utf8.encode t
    · obtain ⟨t, rfl⟩ := hline
      obtain ⟨texts, rest, rfl, hrest⟩ := ih
      exact ⟨t :: texts, rest, rfl, hrest⟩
    · refine ⟨[], line :: ls, rfl, ?_⟩
      rintro _ ⟨⟩ t rfl
      exact hline ⟨t, rfl⟩

theorem collect_append (texts : List Text) {rest : List Bytes}
    (h : ∀ line ∈ rest.head?, ∀ t, line ≠ Utf8.encode t) :
    collect (texts.map Utf8.encode ++ rest) = (texts.filter fun t => ¬t.Blank).map message := by
  induction texts with
  | nil =>
    cases rest with
    | nil => rfl
    | cons line rest =>
      have hnone : Utf8.decode? line = none := Option.eq_none_iff_forall_ne_some.2 fun t ht =>
        h line rfl t (Utf8.decode?_eq_some_iff.1 ht)
      simp [collect, hnone]
  | cons t texts ih =>
    have hblank : t.all Text.isBlank = true ↔ t.Blank := List.all_eq_true
    rw [List.map_cons, List.cons_append, collect, Utf8.decode?_eq_some_iff.2 rfl]
    dsimp only
    by_cases ht : t.Blank
    · rw [if_pos (hblank.2 ht), List.filter_cons_of_neg (by simpa using ht), ih]
    · rw [if_neg (mt hblank.1 ht), List.filter_cons_of_pos (by simpa using ht), List.map_cons, ih]

theorem collect_eq_iff : collect ls = ms ↔ Collected ls ms := by
  constructor
  · rintro rfl
    obtain ⟨texts, rest, rfl, hrest⟩ := exists_texts ls
    exact ⟨texts, rest, rfl, hrest, forall₂_carries_iff.2 (collect_append texts hrest).symm⟩
  · rintro ⟨texts, rest, rfl, hrest, hms⟩
    rw [collect_append texts hrest, forall₂_carries_iff.1 hms]

/-- **The messages of a channel** -/
theorem messages_eq_iff : messages channel = ms ↔ ∃ ls, Lined channel ls ∧ Collected ls ms := by
  simp only [messages, collect_eq_iff, ← lines_eq_iff, exists_eq_left']

/-! ## Values on the channel -/

/-- a value is written without a line feed and without a carriage return -/
theorem not_mem_encode_render {depth : Nat} {value : Json} (h : Json.Exact depth value) {b : UInt8}
    (hb : b.toNat < 0x20) : b ∉ Utf8.encode (Json.render value) := by
  intro hmem
  rcases Utf8.mem_encode hmem with ⟨c, hc, heq⟩ | hhigh
  · have hlow := h.oneLine c hc
    omega
  · omega

/-- **Values sent one a line arrive**, all of them and in order -/
theorem messages_render {values : List Json} (h : ∀ v ∈ values, Json.Exact Json.deepest v) :
    messages (values.flatMap fun v => Utf8.encode (Json.render v) ++ [10]) =
      values.map Json.ordered := by
  induction values with
  | nil => rfl
  | cons v values ih =>
    obtain ⟨hv, hvalues⟩ := List.forall_mem_cons.1 h
    have hfeed := not_mem_encode_render hv (b := 10) (by decide)
    have hreturn := not_mem_encode_render hv (b := 13) (by decide)
    have hlast : (Utf8.encode (Json.render v)).getLast? ≠ some 13 := fun hlast =>
      hreturn (List.mem_of_getLast? hlast)
    have hsolid : ¬(Json.render v).all Text.isBlank = true := by
      obtain ⟨⟨c, more, hcons, hc⟩, -⟩ := hv.solid
      simp [hcons, (Json.isSolid_iff.1 hc).1]
    rw [List.flatMap_cons, List.append_assoc, List.singleton_append, messages, lines_append hfeed,
      withoutReturn_of_ne hlast, collect, Utf8.decode?_eq_some_iff.2 rfl]
    dsimp only
    rw [if_neg hsolid, message, hv.parse?_render, Option.getD_some, List.map_cons, ← ih hvalues,
      messages]

end Channel

/-! ## The process -/

/-- what a program writes to its standard output that is started as a compiler -/
def Behaviour.standardOutput (source : Bytes) : Behaviour → Bytes
  | .host _ => []
  | .compiler run => run.output.getD (if run.readsInput then source else [])

/-- what it writes to its message channel -/
def Behaviour.channel : Behaviour → Bytes
  | .host _ => []
  | .compiler run => run.channel

namespace Isolated

open Channel

variable {flags : EngineFlags} {executable source : Text} {m : Machine}

theorem compile_of_started {program : Program}
    (h : m.program m.directory executable = .ok program) :
    (compile flags executable source m).1 =
      .ok ⟨program.behaviour.standardOutput (Utf8.encode source),
        messages program.behaviour.channel⟩ := by
  rw [compile, h]
  dsimp only
  cases program.behaviour <;> rfl

/-- **What comes back from a compiler process.** The cache is what it wrote to its standard output. The
messages are those of its channel: in order, one for each line that is not blank, in front of the first
line that is no text. It does come back from every program that is started, and two compilers that
write the same give the same cache, whatever they send, complain of or exit with. -/
theorem compile_exact (flags : EngineFlags) (executable source : Text) (m : Machine) :
    (∀ o, (compile flags executable source m).1 = .ok o ↔
      ∃ program, m.program m.directory executable = .ok program ∧
        o.data = program.behaviour.standardOutput (Utf8.encode source) ∧
        ∃ ls, Lined program.behaviour.channel ls ∧ Collected ls o.messages) ∧
    (∀ program, m.program m.directory executable = .ok program →
      ∃ o, (compile flags executable source m).1 = .ok o) ∧
    ∀ (m' : Machine) (name name' : Text) (run run' : CompilerRun),
      m.program m.directory executable = .ok ⟨name, .compiler run⟩ →
      m'.program m'.directory executable = .ok ⟨name', .compiler run'⟩ →
      run'.output = run.output → run'.readsInput = run.readsInput →
      ∃ data ms ms', (compile flags executable source m).1 = .ok ⟨data, ms⟩ ∧
        (compile flags executable source m').1 = .ok ⟨data, ms'⟩ := by
  refine ⟨?_, fun program h => ⟨_, compile_of_started h⟩, ?independent⟩
  · intro o
    cases hprogram : m.program m.directory executable with
    | error e => simp [compile, hprogram]
    | ok program =>
      obtain ⟨data, ms⟩ := o
      simp only [compile_of_started hprogram, Except.ok.injEq, Output.mk.injEq, messages_eq_iff,
        exists_eq_left', eq_comm (a := data)]
  case independent =>
    intro m' name name' run run' h h' houtput hreads
    have hsame : Behaviour.standardOutput (Utf8.encode source) (.compiler run') =
        Behaviour.standardOutput (Utf8.encode source) (.compiler run) := by
      rw [Behaviour.standardOutput, Behaviour.standardOutput, houtput, hreads]
    exact ⟨_, _, _, compile_of_started h, (compile_of_started h').trans (by rw [hsame])⟩

/-- the lines of text that a process sends first: a blank one, a value, more than one value, and a value
with blanks around -/
def chattyTexts : List Text := ["\u3000", "\x7b\"a\":[1]\x7d", "1 2", "\ttrue \r"]

/-- it ends them in both ways; then come a line that is no text, and another value -/
def chattyRun : CompilerRun where
  output := some [1, 2, 3]
  errors := [0xff]
  channel := Utf8.encode "\u3000\n\x7b\"a\":[1]\x7d\r\n1 2\n\ttrue \r\r\n" ++
    [0xc3, 10] ++ Utf8.encode "3"
  exitCode := 1
  readsInput := false

/-- it writes the same, sends nothing and succeeds -/
def quietRun : CompilerRun := { chattyRun with errors := [], channel := [], exitCode := 0 }

def startingMachine (run : CompilerRun) : Machine :=
  ⟨⟨[(["e"], .file [] true (some ⟨"e", .compiler run⟩))]⟩, [], [], []⟩

theorem collected_chatty :
    Collected (chattyTexts.map Utf8.encode ++ [[0xc3], Utf8.encode "3"])
      [.obj [("a".toList, .arr [.int 1])], .str "1 2", .bool true] := by
  refine ⟨chattyTexts, _, rfl, ?_, ?_⟩
  · rintro _ ⟨⟩ t ht
    have hnone : Utf8.decode? [0xc3] = none := by decide
    rw [Utf8.decode?_eq_some_iff.2 ht] at hnone
    cases hnone
  · have hobject : Carries "\x7b\"a\":[1]\x7d" (.obj [("a".toList, .arr [.int 1])]) := by
      have hexact : Json.Exact Json.deepest (.obj [("a".toList, .arr [.int 1])]) :=
        .obj (by simpa using .arr (by simpa using .int (by decide) (by decide)))
      exact .value (Json.parse?_eq_some_iff.1 hexact.parse?_render)
    have hpair : Carries "1 2" (.str "1 2") := by
      refine .text fun v hv => ?_
      have hnone : (Json.parse? "1 2").isNone = true := by decide +kernel
      rw [Json.parse?_eq_some_iff.2 hv] at hnone
      cases hnone
    have htrue : Carries "\ttrue \r" (.bool true) :=
      .value ⟨"\t".toList, "true".toList, " \r".toList, .bool true, by decide, by decide, rfl,
        .isTrue, rfl⟩
    exact .cons hobject (.cons hpair (.cons htrue .nil))

/-- the messages are those in front of the line that is no text, and the cache is that of the quiet
process -/
theorem compile_exact_chatty :
    (compile ⟨false, false⟩ "/e" "x" (startingMachine chattyRun)).1 =
      .ok ⟨[1, 2, 3], [.obj [("a".toList, .arr [.int 1])], .str "1 2", .bool true]⟩ ∧
    ∃ ms, (compile ⟨false, false⟩ "/e" "x" (startingMachine quietRun)).1 = .ok ⟨[1, 2, 3], ms⟩ := by
  obtain ⟨hout, -, hsame⟩ := compile_exact ⟨false, false⟩ "/e" "x" (startingMachine chattyRun)
  have hlined : Lined chattyRun.channel
      (chattyTexts.map Utf8.encode ++ [[0xc3], Utf8.encode "3"]) := by
    rw [← lines_eq_iff]
    decide +kernel
  have hchatty := (hout ⟨[1, 2, 3], _⟩).2 ⟨_, rfl, rfl, _, hlined, collected_chatty⟩
  obtain ⟨data, ms, ms', hdata, hquiet⟩ :=
    hsame (startingMachine quietRun) "e" "e" chattyRun quietRun rfl rfl rfl rfl
  rw [hchatty, Except.ok.injEq, Output.mk.injEq] at hdata
  obtain ⟨rfl, -⟩ := hdata
  exact ⟨hchatty, ms', hquiet⟩

end Isolated

end CodeCache
