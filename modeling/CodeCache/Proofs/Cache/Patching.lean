/-
Writing to a header, byte by byte.

Two writers share the header of a cache: one sets the declared length, the other copies the spans of
a layout from a reference. Both keep the size of the buffer, and they never meet: a span has no byte
in the length field (`covers_eq_false_of_field`).
- `patch_cases`: a patch either copies every selected span, all of them inside both buffers, or
  fails and leaves the target alone.
- `getElem?_patch`: after a successful patch a covered byte is the reference's and any other byte is
  the target's.
- `declaredLength_congr`: the declared length is read off the size and bytes 8..12 alone.
-/
import CodeCache.Cache.Patch
import CodeCache.Proofs.Words

namespace CodeCache

/-! ## The length field -/

namespace Header

/-- position `i` belongs to the length field -/
def inField (i : Nat) : Prop := lengthOffset ≤ i ∧ i < fingerprintOffset

instance (i : Nat) : Decidable (inField i) := by
  unfold inField; infer_instance

theorem length_setDeclaredLength (buffer : Bytes) (n : UInt32) :
    (setDeclaredLength buffer n).2.length = buffer.length := by
  unfold setDeclaredLength
  split_ifs with h
  · simp only [List.length_append, List.length_take, List.length_drop, LittleEndian.length_encode,
      lengthOffset, fingerprintOffset] at h ⊢
    omega
  · rfl

theorem getElem?_setDeclaredLength (buffer : Bytes) (n : UInt32) {i : Nat} (hi : ¬inField i) :
    (setDeclaredLength buffer n).2[i]? = buffer[i]? := by
  unfold setDeclaredLength
  split_ifs with h
  · simp only [inField, lengthOffset, fingerprintOffset] at h hi ⊢
    have hfront : (buffer.take 8 ++ LittleEndian.encode 4 n.toNat).length = 12 := by
      simp only [List.length_append, List.length_take, LittleEndian.length_encode]; omega
    rcases Nat.lt_or_ge i 8 with h8 | h8
    · rw [List.getElem?_append_left (by omega), List.getElem?_append_left (by simp; omega),
        List.getElem?_take_of_lt h8]
    · have h12 : 12 ≤ i := by omega
      rw [List.getElem?_append_right (by omega), hfront, List.getElem?_drop]
      congr 1; omega
  · rfl

/-- in the field, a write leaves its bytes whatever was there -/
theorem getElem?_field_setDeclaredLength {buffer : Bytes} (hlong : fingerprintOffset ≤ buffer.length)
    (n : UInt32) {i : Nat} (hi : inField i) :
    (setDeclaredLength buffer n).2[i]? = (LittleEndian.encode 4 n.toNat)[i - lengthOffset]? := by
  unfold setDeclaredLength
  simp only [if_pos hlong]
  simp only [inField, lengthOffset, fingerprintOffset] at hi hlong ⊢
  have hfront : (buffer.take 8).length = 8 := by rw [List.length_take]; omega
  have hfield : (buffer.take 8 ++ LittleEndian.encode 4 n.toNat).length = 12 := by
    rw [List.length_append, hfront, LittleEndian.length_encode]
  rw [List.getElem?_append_left (by omega), List.getElem?_append_right (by omega), hfront]

/-- what a write leaves at a position depends on the size and on what was there -/
theorem setDeclaredLength_congr {a b : Bytes} (hlen : a.length = b.length) (n : UInt32) {i : Nat}
    (hi : a[i]? = b[i]?) : (setDeclaredLength a n).2[i]? = (setDeclaredLength b n).2[i]? := by
  by_cases hfield : inField i
  · by_cases hlong : fingerprintOffset ≤ b.length
    · rw [getElem?_field_setDeclaredLength (hlen ▸ hlong) n hfield,
        getElem?_field_setDeclaredLength hlong n hfield]
    · simpa only [setDeclaredLength, hlen, if_neg hlong] using hi
  · rw [getElem?_setDeclaredLength a n hfield, getElem?_setDeclaredLength b n hfield, hi]

theorem setDeclaredLength_of_error {buffer : Bytes} {n : UInt32} {e : CacheError}
    (h : (setDeclaredLength buffer n).1 = .error e) : (setDeclaredLength buffer n).2 = buffer := by
  unfold setDeclaredLength at h ⊢
  split_ifs at h ⊢
  rfl

/-- what was written is what is read -/
theorem declaredLength_setDeclaredLength {buffer : Bytes} {n : UInt32}
    (h : (setDeclaredLength buffer n).1 = .ok ()) :
    declaredLength (setDeclaredLength buffer n).2 = .ok n := by
  have hlen := length_setDeclaredLength buffer n
  unfold setDeclaredLength at h hlen ⊢
  split_ifs at h hlen ⊢ with hb
  have hfield : ((buffer.take lengthOffset ++ LittleEndian.encode 4 n.toNat ++
      buffer.drop fingerprintOffset).drop lengthOffset).take 4 = LittleEndian.encode 4 n.toNat := by
    have htake : (buffer.take lengthOffset).length = lengthOffset := by
      simp only [List.length_take, lengthOffset, fingerprintOffset] at hb ⊢; omega
    rw [List.append_assoc, List.drop_left' htake]
    exact List.take_left' (LittleEndian.length_encode 4 n.toNat)
  have hn : n.toNat < 256 ^ 4 := by have := n.toNat_lt; omega
  unfold declaredLength
  rw [if_pos (hb.trans (Nat.le_of_eq hlen.symm)), hfield, LittleEndian.decode_encode,
    Nat.mod_eq_of_lt hn, UInt32.ofNat_toNat]

theorem field_eq_of_bytes {a b : Bytes} (h : ∀ i, inField i → a[i]? = b[i]?) :
    (a.drop lengthOffset).take 4 = (b.drop lengthOffset).take 4 := by
  apply List.ext_getElem?
  intro i
  rcases Nat.lt_or_ge i 4 with hi | hi
  · rw [List.getElem?_take_of_lt hi, List.getElem?_take_of_lt hi, List.getElem?_drop,
      List.getElem?_drop]
    exact h _ ⟨Nat.le_add_right _ _, by simp only [lengthOffset, fingerprintOffset]; omega⟩
  · rw [List.getElem?_take_eq_none hi, List.getElem?_take_eq_none hi]

/-- the declared length depends on the size and the length field only -/
theorem declaredLength_congr {a b : Bytes} (hlen : a.length = b.length)
    (h : ∀ i, inField i → a[i]? = b[i]?) : declaredLength a = declaredLength b := by
  unfold declaredLength
  rw [hlen, field_eq_of_bytes h]

end Header

/-! ## Spans -/

/-- a span has no byte in the length field -/
theorem ByteSpan.covers_eq_false_of_field (s : ByteSpan) {i : Nat} (hi : Header.inField i) :
    s.covers i = false := by
  have hclear := s.clear
  simp only [ByteSpan.covers, Header.inField, Header.fingerprintOffset, Header.lengthOffset,
    Bool.and_eq_false_iff, decide_eq_false_iff_not] at hi hclear ⊢
  omega

namespace Patch

theorem foldl_max_ge (spans : List ByteSpan) (n : Nat) :
    n ≤ spans.foldl (fun n s => max n s.stop) n ∧
      ∀ s ∈ spans, s.stop ≤ spans.foldl (fun n s => max n s.stop) n := by
  induction spans generalizing n with
  | nil => simp
  | cons s spans ih =>
    obtain ⟨h1, h2⟩ := ih (max n s.stop)
    simp only [List.foldl_cons, List.mem_cons]
    refine ⟨by omega, ?_⟩
    rintro t (rfl | ht)
    · omega
    · exact h2 t ht

theorem stop_le_needed {spans : List ByteSpan} {s : ByteSpan} (hs : s ∈ spans) :
    s.stop ≤ needed spans := (foldl_max_ge spans 0).2 s hs

theorem stop_le_of_needed_le {spans : List ByteSpan} {size : Nat} (h : needed spans ≤ size) :
    ∀ s ∈ spans, s.stop ≤ size := by
  intro s hs
  exact (stop_le_needed hs).trans h

/-- some span covers position `i` -/
def covered (spans : List ByteSpan) (i : Nat) : Bool := spans.any (·.covers i)

theorem covered_cons (s : ByteSpan) (spans : List ByteSpan) (i : Nat) :
    covered (s :: spans) i = (s.covers i || covered spans i) := rfl

theorem covered_eq_false_of_field (spans : List ByteSpan) {i : Nat} (hi : Header.inField i) :
    covered spans i = false := by
  simp only [covered, List.any_eq_false]
  intro s _
  simp [s.covers_eq_false_of_field hi]

/-- a covered position lies in front of the bytes a patch needs -/
theorem lt_needed_of_covered {spans : List ByteSpan} {i : Nat} (h : covered spans i = true) :
    i < needed spans := by
  simp only [covered, List.any_eq_true] at h
  obtain ⟨s, hs, hc⟩ := h
  have hstop := stop_le_needed hs
  simp only [ByteSpan.covers, Bool.and_eq_true, decide_eq_true_eq] at hc
  omega

/-- the narrow layout covers nothing that the wide one leaves -/
theorem covered_wide_of_narrow {i : Nat} (h : covered LayoutTable.narrow i = true) :
    covered LayoutTable.wide i = true := by
  unfold LayoutTable.wide
  rw [covered_cons]
  unfold LayoutTable.narrow at h
  rw [covered_cons] at h
  rcases Bool.or_eq_true_iff.1 h with h | h
  · rw [h]; rfl
  · cases h

section Copying

variable {reference target : Bytes}

theorem length_copySpan {s : ByteSpan} (hr : s.stop ≤ reference.length)
    (ht : s.stop ≤ target.length) : (copySpan reference target s).length = target.length := by
  have := s.nonempty
  simp only [copySpan, ByteSpan.length, List.length_append, List.length_take, List.length_drop]
  omega

theorem getElem?_copySpan {s : ByteSpan} (hr : s.stop ≤ reference.length)
    (ht : s.stop ≤ target.length) (i : Nat) :
    (copySpan reference target s)[i]? = if s.covers i then reference[i]? else target[i]? := by
  have hs := s.nonempty
  have hfront : (target.take s.start).length = s.start := by simp; omega
  have hmid : ((reference.drop s.start).take s.length).length = s.length := by
    simp only [ByteSpan.length, List.length_take, List.length_drop]; omega
  have hlen : s.length = s.stop - s.start := rfl
  unfold copySpan
  simp only [ByteSpan.covers, Bool.and_eq_true, decide_eq_true_eq]
  rcases Nat.lt_or_ge i s.start with h1 | h1
  · rw [if_neg (by omega), List.append_assoc, List.getElem?_append_left (by omega),
      List.getElem?_take_of_lt h1]
  · rcases Nat.lt_or_ge i s.stop with h2 | h2
    · rw [if_pos ⟨h1, h2⟩, List.append_assoc, List.getElem?_append_right (by omega), hfront,
        List.getElem?_append_left (by omega), List.getElem?_take_of_lt (by omega),
        List.getElem?_drop]
      congr 1; omega
    · rw [if_neg (by omega), List.getElem?_append_right (by simp only [List.length_append]; omega),
        List.length_append, hfront, hmid, List.getElem?_drop]
      congr 1; omega

theorem length_copySpans {spans : List ByteSpan} (hr : needed spans ≤ reference.length)
    (ht : needed spans ≤ target.length) :
    (copySpans reference target spans).length = target.length := by
  replace hr := stop_le_of_needed_le hr
  replace ht := stop_le_of_needed_le ht
  unfold copySpans
  induction spans generalizing target with
  | nil => rfl
  | cons s spans ih =>
    obtain ⟨hrs, hr⟩ := List.forall_mem_cons.1 hr
    obtain ⟨hts, ht⟩ := List.forall_mem_cons.1 ht
    have hkeep := length_copySpan hrs hts
    rw [← hkeep] at ht ⊢
    exact ih hr ht

/-- a byte under several spans is copied several times, always from the same place -/
theorem getElem?_copySpans {spans : List ByteSpan} (hr : needed spans ≤ reference.length)
    (ht : needed spans ≤ target.length) (i : Nat) :
    (copySpans reference target spans)[i]? =
      if covered spans i then reference[i]? else target[i]? := by
  replace hr := stop_le_of_needed_le hr
  replace ht := stop_le_of_needed_le ht
  unfold copySpans
  induction spans generalizing target with
  | nil => rfl
  | cons s spans ih =>
    obtain ⟨hrs, hr⟩ := List.forall_mem_cons.1 hr
    obtain ⟨hts, ht⟩ := List.forall_mem_cons.1 ht
    rw [← length_copySpan hrs hts] at ht
    rw [List.foldl_cons, ih hr ht, getElem?_copySpan hrs hts, covered_cons]
    cases s.covers i <;> cases covered spans i <;> rfl

end Copying

/-! ## Patches -/

section Patches

variable {table : LayoutTable} {v : EngineVersion} {reference : Except CacheError Bytes}
  {target : Bytes}

/-- all that a patch can do -/
theorem patch_cases (table : LayoutTable) (v : EngineVersion)
    (reference : Except CacheError Bytes) (target : Bytes) :
    (∃ bytes, reference = .ok bytes ∧ needed (table.spansFor v) ≤ bytes.length ∧
        needed (table.spansFor v) ≤ target.length ∧
        patch table v reference target = (.ok (), copySpans bytes target (table.spansFor v))) ∨
      ∃ e, patch table v reference target = (.error e, target) := by
  unfold patch
  cases reference with
  | error e => exact Or.inr ⟨e, rfl⟩
  | ok bytes =>
    simp only
    split_ifs with h1 h2
    · exact Or.inr ⟨_, rfl⟩
    · exact Or.inr ⟨_, rfl⟩
    · exact Or.inl ⟨bytes, rfl, by omega, by omega, rfl⟩

/-- whether a patch succeeds depends on the sizes of the two buffers only -/
theorem patch_fst_congr {a b : Bytes} (h : a.length = b.length) :
    (patch table v reference a).1 = (patch table v reference b).1 := by
  unfold patch
  cases reference with
  | error e => rfl
  | ok bytes => simp only [h]; split_ifs <;> rfl

theorem patch_of_error {e : CacheError} (h : (patch table v reference target).1 = .error e) :
    (patch table v reference target).2 = target := by
  rcases patch_cases table v reference target with ⟨bytes, -, -, -, hp⟩ | ⟨e', hp⟩
  · rw [hp] at h; cases h
  · rw [hp]

theorem length_patch : (patch table v reference target).2.length = target.length := by
  rcases patch_cases table v reference target with ⟨bytes, -, hr, ht, hp⟩ | ⟨e, hp⟩
  · rw [hp]; exact length_copySpans hr ht
  · rw [hp]

theorem getElem?_patch (h : (patch table v reference target).1 = .ok ()) (i : Nat) :
    ∃ bytes, reference = .ok bytes ∧ needed (table.spansFor v) ≤ bytes.length ∧
      (patch table v reference target).2[i]? =
        if covered (table.spansFor v) i then bytes[i]? else target[i]? := by
  rcases patch_cases table v reference target with ⟨bytes, hb, hr, ht, hp⟩ | ⟨e, hp⟩
  · exact ⟨bytes, hb, hr, by rw [hp]; exact getElem?_copySpans hr ht i⟩
  · rw [hp] at h; cases h

/-- no patch changes the declared length -/
theorem declaredLength_patch :
    Header.declaredLength (patch table v reference target).2 = Header.declaredLength target := by
  apply Header.declaredLength_congr length_patch
  intro i hi
  rcases patch_cases table v reference target with ⟨bytes, -, hr, ht, hp⟩ | ⟨e, hp⟩
  · rw [hp]
    have hcovered := covered_eq_false_of_field (table.spansFor v) hi
    simp only [getElem?_copySpans hr ht, hcovered, Bool.false_eq_true, if_false]
  · rw [hp]

end Patches

end Patch

end CodeCache
