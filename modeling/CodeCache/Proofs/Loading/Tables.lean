/-
Module tables, one operation at a time.

Slots and handlers are read back by `value?` and by the lookup of an extension; an empty slot is no
value. The four `require_…` lemmas say all that requiring a path can do: it leads nowhere, it has a
value, nobody handles it, or its handler is called once (`afterCall` is the table then).
-/
import CodeCache.Loading.ModuleTable
import CodeCache.Proofs.Association

namespace CodeCache

variable {η ω : Type}

/-! ## Slots and handlers -/

namespace ModuleTable

@[simp] theorem handlers_reserve (table : ModuleTable η) (path : Text) :
    (table.reserve path).handlers = table.handlers := by
  unfold reserve
  split_ifs <;> rfl

/-- an empty slot is no value -/
@[simp] theorem value?_reserve (table : ModuleTable η) (path other : Text) :
    (table.reserve path).value? other = table.value? other := by
  unfold reserve
  split_ifs with h
  · rfl
  · simp only [value?, List.lookup_cons]
    by_cases ho : other = path
    · rw [Option.not_isSome_iff_eq_none] at h
      rw [ho, h, beq_self_eq_true]
      rfl
    · rw [beq_eq_false_iff_ne.2 ho]

@[simp] theorem value?_setHandler (table : ModuleTable η) (extension : Text) (handler : η)
    (path : Text) : (table.setHandler extension handler).value? path = table.value? path := rfl

theorem value?_fill (table : ModuleTable η) (path other : Text) (v : Json) :
    (table.fill path v).value? other = if other = path then some v else table.value? other := by
  simp only [value?, fill, Association.lookup_put]
  split_ifs <;> rfl

theorem handlers_setHandler (table : ModuleTable η) (extension other : Text) (handler : η) :
    (table.setHandler extension handler).handlers.lookup other =
      if other = extension then some handler else table.handlers.lookup other :=
  Association.lookup_put extension other handler table.handlers

/-! ## One require -/

variable {L : ModuleLoading η ω} {table : ModuleTable η} {path c : Text} {w : ω}

theorem require_of_error {e : OsError} (hc : L.canonical w path = .error e) :
    table.require L path w = (.error (.file .resolve path e), table, w) := by
  simp only [require, hc]

theorem require_of_value {v : Json} (hc : L.canonical w path = .ok c)
    (hv : table.value? c = some v) : table.require L path w = (.ok v, table, w) := by
  simp only [require, hc, hv]

theorem require_unhandled (hc : L.canonical w path = .ok c) (hv : table.value? c = none)
    (hh : table.handlers.lookup (route c) = none) :
    table.require L path w = (.error (.unhandledExtension (route c)), table, w) := by
  simp only [require, hc, hv, hh]

/-- the table after a handler was called for a canonical path -/
def afterCall (table : ModuleTable η) (c : Text) (result : Except CompileError Json) (after : η) :
    ModuleTable η :=
  let table := (table.reserve c).setHandler (route c) after
  match result with
  | .error _ => table
  | .ok v => table.fill c v

/-- the handler is called once, whether it succeeds or not -/
theorem require_call {handler : η} (hc : L.canonical w path = .ok c)
    (hv : table.value? c = none) (hh : table.handlers.lookup (route c) = some handler) :
    table.require L path w =
      ((L.load handler c w).1,
        table.afterCall c (L.load handler c w).1 (L.load handler c w).2.1,
        (L.load handler c w).2.2) := by
  simp only [require, hc, hv, hh, load, value?_reserve]
  obtain ⟨result, after, w'⟩ := L.load handler c w
  cases result <;> rfl

theorem value?_afterCall (hv : table.value? c = none) (result : Except CompileError Json)
    (after : η) (other : Text) :
    (table.afterCall c result after).value? other =
      (table.value? other).or (if c = other then result.toOption else none) := by
  cases result with
  | error e =>
    simp only [afterCall, value?_setHandler, value?_reserve, Except.toOption, ite_self,
      Option.or_none]
  | ok v =>
    simp only [afterCall, value?_fill, value?_setHandler, value?_reserve, Except.toOption]
    by_cases ho : other = c
    · subst ho
      rw [if_pos rfl, if_pos rfl, hv]
      rfl
    · rw [if_neg ho, if_neg (Ne.symm ho), Option.or_none]

theorem handlers_afterCall (result : Except CompileError Json) (after : η) (extension : Text) :
    (table.afterCall c result after).handlers.lookup extension =
      (if route c = extension then some after else none).or (table.handlers.lookup extension) := by
  have hset : ((table.reserve c).setHandler (route c) after).handlers.lookup extension =
      (if route c = extension then some after else none).or (table.handlers.lookup extension) := by
    rw [handlers_setHandler, handlers_reserve]
    by_cases he : extension = route c
    · rw [if_pos he, if_pos he.symm]
      rfl
    · rw [if_neg he, if_neg (Ne.symm he)]
      rfl
  cases result with
  | error e => exact hset
  | ok v => exact hset

end ModuleTable

end CodeCache
