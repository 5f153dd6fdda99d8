/-
Wrapped bodies: which of them compile, and that nothing else is unwrapped.

The wrapper puts a body behind two open brackets and closes two behind it. So a body may close two
brackets that it did not open, if it opens as many again (`balanced_wrap_iff`). Every body that
compiles on its own compiles wrapped; the end of one module and the beginning of another, `abutting`,
compiles wrapped only.

A text that begins with the head and goes on to end with the tail has one body, also where the body
repeats the wrapper: what is taken off has a fixed size at either end (`unwrap?_eq_some_iff`). That
body is what a run evaluates (`run_module`).

Main result, `wrap_exact`.
-/
import CodeCache.Proofs.Engine.CacheFormat
import CodeCache.Proofs.Text.Units

namespace CodeCache.SimulatedEngine

open ModuleWrapper

/-! ## Compiling -/

/-- openers less closers, of any kind -/
def bracketCount (t : Text) : Int := t.countP isOpening - t.countP isClosing

/-- the engine makes a cache of the source -/
def Compiles (e : SimulatedEngine) (source : Text) : Prop :=
  ∃ data, (e.compile source).1 = .ok data

variable {e : SimulatedEngine} {body source t : Text}

theorem compiles_iff : e.Compiles source ↔ balanced 0 source = true := by
  simp only [Compiles, compile_eq_ok_iff, exists_and_left, exists_eq, and_true, balanced_zero_iff]

/-- the head leaves two brackets open -/
theorem balanced_head (t : Text) : balanced 0 (head ++ t) = balanced 2 t := by
  have hclosed : balanced 0 (head ++ "\x7d)".toList) = true := by decide
  have hopen : 0 + head.countP isOpening - head.countP isClosing = 2 := by decide
  rw [balanced_append_iff] at hclosed
  rw [Bool.eq_iff_iff, balanced_append_iff, hopen]
  exact and_iff_right hclosed.1

/-- the tail closes two, no more and no fewer -/
theorem balanced_tail (depth : Nat) : balanced depth tail = true ↔ depth = 2 := by
  match depth with
  | 0 => decide
  | 1 => decide
  | 2 => decide
  | depth + 3 =>
    have hrest : balanced (depth + 3) tail = (depth + 1 == 0) := rfl
    rw [hrest, beq_iff_eq]
    omega

theorem balanced_wrap_iff :
    balanced 0 (wrap body) = true ↔
      bracketCount body = 0 ∧ ∀ read, read <+: body → -2 ≤ bracketCount read := by
  rw [wrap, List.append_assoc, balanced_head, balanced_append_iff, balanced_tail, and_comm]
  simp only [bracketCount]
  constructor
  · rintro ⟨hlevel, hread⟩
    have hall := hread body (List.prefix_refl body)
    refine ⟨by omega, ?_⟩
    intro read hprefix
    have hone := hread read hprefix
    omega
  · rintro ⟨hlevel, hread⟩
    refine ⟨by omega, ?_⟩
    intro read hprefix
    have hone := hread read hprefix
    omega

/-- a body that never closes what it did not open is never two below -/
theorem Compiles.wrapped (h : e.Compiles body) : e.Compiles (wrap body) := by
  obtain ⟨hread, hlevel⟩ := (balanced_zero_iff body).1 (compiles_iff.1 h)
  refine compiles_iff.2 (balanced_wrap_iff.2 ⟨?_, ?_⟩)
  · rw [bracketCount, hlevel, sub_self]
  · intro read hprefix
    have hone := hread read hprefix
    rw [bracketCount]
    omega

/-- the end of one module in front of the beginning of another -/
def abutting : Text :=
  "module.exports = true;".toList ++ tail ++ head ++ "module.exports = false;".toList

theorem compiles_wrap_abutting (e : SimulatedEngine) :
    e.Compiles (wrap abutting) ∧ ¬e.Compiles abutting := by
  constructor
  · exact compiles_iff.2 (by decide +kernel)
  · rw [compiles_iff]
    decide +kernel

/-! ## Running -/

/-- a module that is run is unwrapped, and its body evaluated -/
theorem run_module {script : CachedScript} (hmodule : script.invocation = .module)
    (haccepts : e.accepts script.data script.placeholder = true)
    (ht : script.data.drop 20 = Utf8.encode t) :
    (e.run script).1 =
      match unwrap? t with
      | some body => .ok (.completed (moduleValue body))
      | none => .error (.script "TypeError: compiledWrapper.apply is not a function") := by
  have hpayload : script.data.drop Header.fingerprintEnd = Utf8.encode t := ht
  simp only [run, haccepts, if_true, evaluate, hpayload, Utf8.decode_encode, hmodule]
  cases unwrap? t with
  | none => rfl
  | some body => rfl

/-- **Wrapping is exact.** A wrapped body compiles exactly if as many brackets are opened in it as
closed, and never more than two more closed than opened on the way. So every body that compiles on
its own compiles wrapped, and there are others that do. A text can be unwrapped exactly if it is a
wrapped body; it is that of no other body, and this body is what a run of the text as a module gives
the value of. A text that is no wrapped body is a report of the script. -/
theorem wrap_exact (e : SimulatedEngine) :
    (∀ body, e.Compiles (wrap body) ↔
      bracketCount body = 0 ∧ ∀ read, read <+: body → -2 ≤ bracketCount read) ∧
    (∀ body, e.Compiles body → e.Compiles (wrap body)) ∧
    (∃ body, e.Compiles (wrap body) ∧ ¬e.Compiles body) ∧
    (∀ t, (∃ body, unwrap? t = some body) ↔ ∃ body, t = wrap body) ∧
    (∀ t body, unwrap? t = some body → ∀ other, t = wrap other ↔ other = body) ∧
    ∀ (script : CachedScript) t, script.invocation = .module →
      e.accepts script.data script.placeholder = true → script.data.drop 20 = Utf8.encode t →
      (∀ body, unwrap? t = some body → (e.run script).1 = .ok (.completed (moduleValue body))) ∧
      ((∀ body, t ≠ wrap body) → (e.run script).1 =
        .error (.script "TypeError: compiledWrapper.apply is not a function")) := by
  refine ⟨fun body => compiles_iff.trans balanced_wrap_iff, fun body => Compiles.wrapped,
    ⟨abutting, compiles_wrap_abutting e⟩, fun t => exists_congr fun body => unwrap?_eq_some_iff,
    ?_, ?_⟩
  · intro t body hbody other
    rw [← unwrap?_eq_some_iff, hbody, Option.some.injEq, eq_comm]
  · intro script t hmodule haccepts ht
    have hrun := run_module hmodule haccepts ht
    constructor
    · intro body hbody
      rw [hrun, hbody]
    · intro hno
      have hnone : unwrap? t = none :=
        Option.eq_none_iff_forall_ne_some.2 fun body hbody => hno body (unwrap?_eq_some_iff.1 hbody)
      rw [hrun, hnone]

/-- The body that has the tail and the head of the wrapper inside is level, is taken out whole, and
gives the value that its first half assigns: in the second half the head stands in one statement with
the assignment. -/
theorem wrap_exact_abutting :
    bracketCount abutting = 0 ∧ unwrap? (wrap abutting) = some abutting ∧
    (standard.run ⟨"a.bin", Placeholder.source 177, standard.cacheOf (wrap abutting), .module⟩).1 =
      .ok (.completed (.bool true)) := by
  obtain ⟨hcompiles, -, -, hunwrap, hunique, hrun⟩ := wrap_exact standard
  have hbody : unwrap? (wrap abutting) = some abutting := by
    obtain ⟨body, hbody⟩ := (hunwrap (wrap abutting)).2 ⟨abutting, rfl⟩
    rw [hbody, (hunique _ body hbody abutting).1 rfl]
  have hlength := standard.length_fingerprint
  have hunits : Text.units (wrap abutting) = 177 := by decide +kernel
  have haccepts : standard.accepts (standard.cacheOf (wrap abutting)) (Placeholder.source 177) =
      true := by
    rw [cacheOf_eq_sealed, accepts_sealed standard hlength, hunits, Placeholder.units_source]
    exact ⟨rfl, rfl⟩
  have hpayload : (standard.cacheOf (wrap abutting)).drop 20 = Utf8.encode (wrap abutting) := by
    rw [cacheOf_eq_sealed, drop_sealed_payload _ hlength]
  have hvalue : moduleValue abutting = .bool true := by cbv
  refine ⟨((hcompiles abutting).1 (compiles_wrap_abutting standard).1).1, hbody, ?_⟩
  rw [(hrun ⟨"a.bin", Placeholder.source 177, standard.cacheOf (wrap abutting), .module⟩
    (wrap abutting) rfl haccepts hpayload).1 abutting hbody, hvalue]

end CodeCache.SimulatedEngine
