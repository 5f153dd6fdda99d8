/-
Runs of header writes: any mix of new declared lengths and patches on one buffer, the patchers with
any tables, versions and references, missing ones among them.

Main result, `run_determined`: after a run, the buffer is determined by the operations that
succeeded.
- Its size is that of the start, and an operation that fails changes nothing.
- The declared length is the last one written; no patch touches it.
- Any other byte is that of the last patch covering it, or the one of the start.
- A patch made twice is a patch made once, and a patch absorbs every earlier one whose positions it
  covers.

The induction (`run_byte`, `run_declaredLength`) goes through the run from its front, with the
buffer general: the bytes that a first operation leaves are those "of the start" for the rest. For
the absorption two runs go side by side: a position is changed by what is at this position alone
(`apply_congr`), so what they differ in stays within what the last patch covers.
-/
import CodeCache.Proofs.Cache.Patching

namespace CodeCache

/-- a table of layouts, and the reference cache of an engine, or why there is none -/
structure HeaderPatcher where
  table : LayoutTable
  version : EngineVersion
  reference : Except CacheError Bytes

namespace HeaderPatcher

def patch (p : HeaderPatcher) (buffer : Bytes) : Except CacheError Unit × Bytes :=
  Patch.patch p.table p.version p.reference buffer

/-- the spans for its engine cover position `i` -/
def covers (p : HeaderPatcher) (i : Nat) : Bool := Patch.covered (p.table.spansFor p.version) i

/-- byte `i` of its reference -/
def byte? (p : HeaderPatcher) (i : Nat) : Option UInt8 := p.reference.toOption.bind (·[i]?)

theorem getElem?_patch {p : HeaderPatcher} {buffer : Bytes} (h : (p.patch buffer).1 = .ok ())
    (i : Nat) : (p.patch buffer).2[i]? = if p.covers i then p.byte? i else buffer[i]? := by
  obtain ⟨bytes, hb, -, hi⟩ := Patch.getElem?_patch h i
  rw [show p.patch buffer = Patch.patch p.table p.version p.reference buffer from rfl, hi]
  simp [covers, byte?, hb, Except.toOption]

/-- a patch that succeeds has a reference byte for every position it covers -/
theorem byte?_isSome {p : HeaderPatcher} {buffer : Bytes} (h : (p.patch buffer).1 = .ok ())
    {i : Nat} (hi : p.covers i = true) : (p.byte? i).isSome := by
  obtain ⟨bytes, hb, hlen, -⟩ := Patch.getElem?_patch h i
  have hlt := Patch.lt_needed_of_covered hi
  simp only [byte?, hb, Except.toOption, Option.bind_some]
  rw [List.getElem?_eq_getElem (hlt.trans_le hlen)]
  rfl

/-- what a patch leaves at a position depends on the size and on what was there -/
theorem patch_congr (p : HeaderPatcher) {a b : Bytes} (hlen : a.length = b.length) {i : Nat}
    (hi : a[i]? = b[i]?) : (p.patch a).2[i]? = (p.patch b).2[i]? := by
  have hfst : (p.patch a).1 = (p.patch b).1 := Patch.patch_fst_congr hlen
  cases h : (p.patch a).1 with
  | error e =>
    rw [show (p.patch a).2 = a from Patch.patch_of_error h,
      show (p.patch b).2 = b from Patch.patch_of_error (hfst.symm.trans h), hi]
  | ok => rw [getElem?_patch h, getElem?_patch (hfst.symm.trans h), hi]

/-- of two buffers that differ only where it copies to, a patch makes the same -/
theorem patch_absorbs {p : HeaderPatcher} {a b : Bytes} (hlen : a.length = b.length)
    (h : (p.patch b).1 = .ok ()) (hrest : ∀ i, ¬p.covers i = true → a[i]? = b[i]?) :
    p.patch a = p.patch b := by
  have hfst : (p.patch a).1 = (p.patch b).1 := Patch.patch_fst_congr hlen
  apply Prod.ext hfst
  apply List.ext_getElem?
  intro i
  rw [getElem?_patch (hfst.trans h), getElem?_patch h]
  split_ifs with hi
  · rfl
  · exact hrest i hi

theorem patch_patch (p : HeaderPatcher) (buffer : Bytes) :
    p.patch (p.patch buffer).2 = p.patch buffer := by
  cases h : (p.patch buffer).1 with
  | error e => rw [show (p.patch buffer).2 = buffer from Patch.patch_of_error h]
  | ok =>
    refine patch_absorbs Patch.length_patch h ?_
    intro i hi
    rw [getElem?_patch h, if_neg hi]

end HeaderPatcher

/-- one operation on the header of a buffer -/
inductive HeaderWrite where
  | length (n : UInt32)
  | patch (p : HeaderPatcher)

namespace HeaderWrite

def apply : HeaderWrite → Bytes → Except CacheError Unit × Bytes
  | .length n, buffer => Header.setDeclaredLength buffer n
  | .patch p, buffer => p.patch buffer

/-- the buffer after operations, failing ones included -/
def run (ws : List HeaderWrite) (buffer : Bytes) : Bytes :=
  ws.foldl (fun b w => (w.apply b).2) buffer

/-- the operations of a run that succeed, in order -/
def succeeding : List HeaderWrite → Bytes → List HeaderWrite
  | [], _ => []
  | w :: ws, buffer =>
    if (w.apply buffer).1.isOk then w :: succeeding ws (w.apply buffer).2
    else succeeding ws (w.apply buffer).2

/-- the length an operation declares -/
def length? : HeaderWrite → Option UInt32
  | .length n => some n
  | .patch _ => none

/-- the patcher of an operation that covers position `i` -/
def covering? (i : Nat) : HeaderWrite → Option HeaderPatcher
  | .length _ => none
  | .patch p => if p.covers i then some p else none

/-- the last length declared -/
def lastLength (ws : List HeaderWrite) : Option UInt32 := ws.reverse.findSome? length?

/-- the last patcher that covers position `i` -/
def lastCovering (i : Nat) (ws : List HeaderWrite) : Option HeaderPatcher :=
  ws.reverse.findSome? (covering? i)

theorem lastLength_cons (w : HeaderWrite) (ws : List HeaderWrite) :
    lastLength (w :: ws) = (lastLength ws).or w.length? := by
  simp only [lastLength, List.reverse_cons, List.findSome?_append, List.findSome?_cons,
    List.findSome?_nil]
  cases w.length? <;> rfl

theorem lastCovering_cons (i : Nat) (w : HeaderWrite) (ws : List HeaderWrite) :
    lastCovering i (w :: ws) = (lastCovering i ws).or (w.covering? i) := by
  simp only [lastCovering, List.reverse_cons, List.findSome?_append, List.findSome?_cons,
    List.findSome?_nil]
  cases w.covering? i <;> rfl

/-! ## One operation -/

theorem length_apply (w : HeaderWrite) (buffer : Bytes) :
    (w.apply buffer).2.length = buffer.length := by
  cases w with
  | length n => exact Header.length_setDeclaredLength buffer n
  | patch p => exact Patch.length_patch

theorem apply_of_error {w : HeaderWrite} {buffer : Bytes} {e : CacheError}
    (h : (w.apply buffer).1 = .error e) : (w.apply buffer).2 = buffer := by
  cases w with
  | length n => exact Header.setDeclaredLength_of_error h
  | patch p => exact Patch.patch_of_error h

theorem declaredLength_apply {w : HeaderWrite} {buffer : Bytes} (h : (w.apply buffer).1 = .ok ()) :
    Header.declaredLength (w.apply buffer).2 =
      w.length?.elim (Header.declaredLength buffer) .ok := by
  cases w with
  | length n => exact Header.declaredLength_setDeclaredLength h
  | patch p => exact Patch.declaredLength_patch

theorem getElem?_apply {w : HeaderWrite} {buffer : Bytes} (h : (w.apply buffer).1 = .ok ())
    {i : Nat} (hi : ¬Header.inField i) :
    (w.apply buffer).2[i]? = (w.covering? i).elim buffer[i]? (·.byte? i) := by
  cases w with
  | length n => exact Header.getElem?_setDeclaredLength buffer n hi
  | patch p =>
    have hp := HeaderPatcher.getElem?_patch (p := p) h i
    simp only [apply, covering?, hp]
    split_ifs <;> rfl

/-- what an operation leaves at a position depends on the size and on what was there -/
theorem apply_congr (w : HeaderWrite) {a b : Bytes} (hlen : a.length = b.length) {i : Nat}
    (hi : a[i]? = b[i]?) : (w.apply a).2[i]? = (w.apply b).2[i]? := by
  cases w with
  | length n => exact Header.setDeclaredLength_congr hlen n hi
  | patch p => exact p.patch_congr hlen hi

/-! ## Runs -/

theorem length_run (ws : List HeaderWrite) (buffer : Bytes) :
    (run ws buffer).length = buffer.length := by
  induction ws generalizing buffer with
  | nil => rfl
  | cons w ws ih => exact (ih _).trans (length_apply w buffer)

theorem succeeding_cons_of_error {w : HeaderWrite} {ws : List HeaderWrite} {buffer : Bytes}
    {e : CacheError} (h : (w.apply buffer).1 = .error e) :
    succeeding (w :: ws) buffer = succeeding ws buffer := by
  simp only [succeeding, h, apply_of_error h]
  rfl

theorem succeeding_cons_of_ok {w : HeaderWrite} {ws : List HeaderWrite} {buffer : Bytes}
    (h : (w.apply buffer).1 = .ok ()) :
    succeeding (w :: ws) buffer = w :: succeeding ws (w.apply buffer).2 := by
  simp only [succeeding, h]
  rfl

theorem run_cons (w : HeaderWrite) (ws : List HeaderWrite) (buffer : Bytes) :
    run (w :: ws) buffer = run ws (w.apply buffer).2 := rfl

theorem run_declaredLength (ws : List HeaderWrite) (buffer : Bytes) :
    Header.declaredLength (run ws buffer) =
      (lastLength (succeeding ws buffer)).elim (Header.declaredLength buffer) .ok := by
  induction ws generalizing buffer with
  | nil => rfl
  | cons w ws ih =>
    rw [run_cons, ih]
    cases h : (w.apply buffer).1 with
    | error e => rw [succeeding_cons_of_error h, apply_of_error h]
    | ok =>
      rw [succeeding_cons_of_ok h, lastLength_cons, declaredLength_apply h]
      cases lastLength (succeeding ws (w.apply buffer).2) <;> rfl

theorem run_byte (ws : List HeaderWrite) (buffer : Bytes) {i : Nat} (hi : ¬Header.inField i) :
    (run ws buffer)[i]? = (lastCovering i (succeeding ws buffer)).elim buffer[i]? (·.byte? i) := by
  induction ws generalizing buffer with
  | nil => rfl
  | cons w ws ih =>
    rw [run_cons, ih]
    cases h : (w.apply buffer).1 with
    | error e => rw [succeeding_cons_of_error h, apply_of_error h]
    | ok =>
      rw [succeeding_cons_of_ok h, lastCovering_cons, getElem?_apply h hi]
      cases lastCovering i (succeeding ws (w.apply buffer).2) <;> rfl

/-- buffers that differ in some positions differ there only, whatever is done to both -/
theorem run_congr (ws : List HeaderWrite) {a b : Bytes} (hlen : a.length = b.length) {i : Nat}
    (hi : a[i]? = b[i]?) : (run ws a)[i]? = (run ws b)[i]? := by
  induction ws generalizing a b with
  | nil => exact hi
  | cons w ws ih =>
    rw [run_cons, run_cons]
    refine ih ?_ (apply_congr w hlen hi)
    rw [length_apply, length_apply, hlen]

/-- a patch absorbs an earlier one whose positions it covers, whatever was done between them -/
theorem patch_absorbs_earlier {p q : HeaderPatcher} {buffer : Bytes}
    (hcov : ∀ i, q.covers i = true → p.covers i = true) (h : (p.patch buffer).1 = .ok ())
    (between : List HeaderWrite) :
    p.patch (run between (q.patch buffer).2) = p.patch (run between buffer) := by
  have hlen : (q.patch buffer).2.length = buffer.length := Patch.length_patch
  have hruns : (run between (q.patch buffer).2).length = (run between buffer).length := by
    rw [length_run, length_run, hlen]
  refine HeaderPatcher.patch_absorbs hruns ?_ ?_
  · exact (Patch.patch_fst_congr (length_run between buffer)).trans h
  · intro i hi
    refine run_congr between hlen ?_
    cases hq : (q.patch buffer).1 with
    | error e => rw [show (q.patch buffer).2 = buffer from Patch.patch_of_error hq]
    | ok => rw [HeaderPatcher.getElem?_patch hq, if_neg fun hqi => hi (hcov i hqi)]

/-- the reference of the last successful patch over a position does reach that position -/
theorem lastCovering_byte (ws : List HeaderWrite) (buffer : Bytes) {i : Nat} {p : HeaderPatcher}
    (h : lastCovering i (succeeding ws buffer) = some p) : (p.byte? i).isSome := by
  induction ws generalizing buffer with
  | nil => cases h
  | cons w ws ih =>
    cases hw : (w.apply buffer).1 with
    | error e => exact ih buffer (by rw [← succeeding_cons_of_error hw]; exact h)
    | ok =>
      rw [succeeding_cons_of_ok hw, lastCovering_cons, Option.or_eq_some_iff] at h
      rcases h with h | ⟨-, h⟩
      · exact ih _ h
      · cases w with
        | length n => cases h
        | patch q =>
          simp only [covering?, Option.ite_none_right_eq_some, Option.some.injEq] at h
          obtain ⟨hq, rfl⟩ := h
          exact HeaderPatcher.byte?_isSome hw hq

/-- **A run is determined by what succeeded.** For every buffer and every sequence of header
writes: the size stays; a failing write, at whatever point, changes nothing; the declared length is
the last one written; a byte outside the length field is the reference byte of the last successful
patch over it, or the byte of the start; a repeated patch is one patch; and a patch that succeeds
absorbs every earlier one whose positions it covers, with any operations between the two. -/
theorem run_determined (buffer : Bytes) (ws : List HeaderWrite) :
    let after := run ws buffer
    after.length = buffer.length ∧
    (∀ (w : HeaderWrite) (e : CacheError),
      (w.apply after).1 = .error e → (w.apply after).2 = after) ∧
    Header.declaredLength after =
      (match lastLength (succeeding ws buffer) with
      | some n => .ok n
      | none => Header.declaredLength buffer) ∧
    (∀ i, ¬Header.inField i →
      match lastCovering i (succeeding ws buffer) with
      | some p => ∃ byte, p.byte? i = some byte ∧ after[i]? = some byte
      | none => after[i]? = buffer[i]?) ∧
    (∀ p : HeaderPatcher, p.patch (p.patch after).2 = p.patch after) ∧
    ∀ (p q : HeaderPatcher) (between : List HeaderWrite),
      (∀ i, q.covers i = true → p.covers i = true) → (p.patch after).1 = .ok () →
        p.patch (run between (q.patch after).2) = p.patch (run between after) := by
  intro after
  refine ⟨?_, ?_, ?_, ?_, ?_, ?_⟩
  · exact length_run ws buffer
  · intro w e h
    exact apply_of_error h
  · have hlast := run_declaredLength ws buffer
    cases h : lastLength (succeeding ws buffer) with
    | none => rw [h] at hlast; exact hlast
    | some n => rw [h] at hlast; exact hlast
  · intro i hi
    have hbyte := run_byte ws buffer hi
    cases h : lastCovering i (succeeding ws buffer) with
    | none => rw [h] at hbyte; exact hbyte
    | some p =>
      obtain ⟨byte, hp⟩ := Option.isSome_iff_exists.1 (lastCovering_byte ws buffer h)
      rw [h] at hbyte
      exact ⟨byte, hp, hbyte.trans hp⟩
  · intro p
    exact p.patch_patch after
  · intro p q between hcov h
    exact patch_absorbs_earlier hcov h between

/-- a patcher for a version that takes bytes 12..20 from the numbers 0, 1, 2, … -/
def widePatcher : HeaderPatcher :=
  ⟨.builtIn, ⟨22, 12, 0⟩, .ok ((List.range 24).map UInt8.ofNat)⟩

/-- a patcher for a version that takes bytes 12..16, all of them zeros -/
def narrowPatcher : HeaderPatcher := ⟨.builtIn, ⟨18, 19, 0⟩, .ok (List.replicate 20 0)⟩

/-- a patcher without a reference -/
def emptyPatcher : HeaderPatcher := ⟨.builtIn, ⟨22, 12, 0⟩, .error (.reference "no engine")⟩

/-- both writers, a failure and a narrow patch over a wide one -/
def mixedRun : List HeaderWrite :=
  [.length 7, .patch widePatcher, .patch emptyPatcher, .patch narrowPatcher, .length 258]

/-- 21 bytes to write on -/
def blank : Bytes := List.replicate 21 255

/-- the length is the last one, bytes 12..16 are the narrow patch's, 16..20 the wide one's, and
another wide patch would absorb a narrow one that has the whole run behind it -/
theorem run_determined_mixed :
    run mixedRun blank =
      List.replicate 8 255 ++ [2, 1, 0, 0] ++ [0, 0, 0, 0] ++ [16, 17, 18, 19] ++ [255] ∧
    Header.declaredLength (run mixedRun blank) = .ok 258 ∧
    (emptyPatcher.patch (run mixedRun blank)).2 = run mixedRun blank ∧
    (∃ byte, widePatcher.byte? 17 = some byte ∧ (run mixedRun blank)[17]? = some byte) ∧
    widePatcher.patch (run mixedRun (narrowPatcher.patch (run mixedRun blank)).2) =
      widePatcher.patch (run mixedRun (run mixedRun blank)) := by
  obtain ⟨-, hfail, hlength, hbytes, -, habsorb⟩ := run_determined blank mixedRun
  have hn : LayoutTable.builtIn.spansFor ⟨18, 19, 0⟩ = LayoutTable.narrow := by decide
  have hw : LayoutTable.builtIn.spansFor ⟨22, 12, 0⟩ = LayoutTable.wide := by decide
  have hcov : ∀ i, narrowPatcher.covers i = true → widePatcher.covers i = true := by
    intro i hi
    change Patch.covered (LayoutTable.builtIn.spansFor ⟨18, 19, 0⟩) i = true at hi
    change Patch.covered (LayoutTable.builtIn.spansFor ⟨22, 12, 0⟩) i = true
    rw [hn] at hi
    rw [hw]
    exact Patch.covered_wide_of_narrow hi
  exact ⟨by decide, hlength, hfail (.patch emptyPatcher) (.reference "no engine") rfl,
    hbytes 17 (by decide), habsorb widePatcher narrowPatcher mixedRun hcov (by decide)⟩

end HeaderWrite

end CodeCache
