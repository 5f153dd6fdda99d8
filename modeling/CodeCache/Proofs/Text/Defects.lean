/-
Where bytes stop being text.

Behind well-formed bytes decoding goes on as if they had not been there (`decodeFrom_append`), and
what is in front of a defect is well-formed (`decodeFrom_error`). So the index of the first defect is
the length of the longest well-formed beginning.

Main result, `decode_error`.

A reading that goes on behind defects shows U+FFFD for each. It gives a text back as it is
(`decodeLossy_encode`), and its ASCII characters are those that are there (`mem_decodeLossy`).
-/
import CodeCache.Proofs.Text.Utf8

namespace CodeCache.Utf8

/-- the bytes are the encoding of a text -/
def WellFormed (bs : Bytes) : Prop := ∃ t, bs = encode t

variable {bs : Bytes} {d : Defect} {index : Nat}

theorem wellFormed_iff : WellFormed bs ↔ ∃ t, decode bs = .ok t :=
  exists_congr fun _ => decode_eq_ok_iff.symm

theorem not_wellFormed_iff : ¬WellFormed bs ↔ ∃ d, decode bs = .error d := by
  rw [wellFormed_iff]
  cases decode bs <;> simp

instance (bs : Bytes) : Decidable (WellFormed bs) :=
  decidable_of_iff ((decode bs).toOption.isSome = true) <| by
    rw [wellFormed_iff]
    cases decode bs <;> simp [Except.toOption]

/-- **Behind a text** the rest is decoded for itself, its defects counted from the beginning -/
theorem decodeFrom_append (t : Text) (rest : Bytes) (index : Nat) :
    decodeFrom 0 index (encode t ++ rest) =
      (decodeFrom 0 (index + (encode t).length) rest).map (t ++ ·) := by
  induction t generalizing index with
  | nil =>
    change decodeFrom 0 index rest = (decodeFrom 0 index rest).map ([] ++ ·)
    cases decodeFrom 0 index rest <;> rfl
  | cons c t ih =>
    obtain ⟨lead, more, hc, hsequence⟩ := sequence_encodeChar c (encode t ++ rest)
    have hencode : encode (c :: t) = lead :: (more ++ encode t) := by
      simp only [encode, List.flatMap_cons, hc, List.cons_append]
    have hindex : index + 1 + more.length + (encode t).length =
        index + (lead :: (more ++ encode t)).length := by
      simp only [List.length_cons, List.length_append]
      omega
    rw [hencode, List.cons_append, List.append_assoc, decodeFrom, hsequence]
    simp only [Nat.add_sub_cancel, decodeFrom_skip, ih, hindex]
    cases decodeFrom 0 (index + (lead :: (more ++ encode t)).length) rest <;> rfl

/-- what is in front of a defect is well-formed -/
theorem decodeFrom_error (h : decodeFrom 0 index bs = .error d) :
    ∃ t rest, bs = encode t ++ rest ∧ d.index = index + (encode t).length := by
  induction hlength : bs.length using Nat.strong_induction_on generalizing bs index with
  | _ length ih =>
    cases bs with
    | nil => cases h
    | cons lead rest =>
      rw [decodeFrom] at h
      cases hsequence : sequence lead rest with
      | malformed size =>
        simp only [hsequence] at h
        cases h
        exact ⟨[], lead :: rest, rfl, rfl⟩
      | truncated =>
        simp only [hsequence] at h
        cases h
        exact ⟨[], lead :: rest, rfl, rfl⟩
      | scalar c size =>
        obtain ⟨more, tail, rfl, rfl, hc⟩ := encodeChar_of_sequence hsequence
        simp only [hsequence, Nat.add_sub_cancel, decodeFrom_skip] at h
        cases htail : decodeFrom 0 (index + 1 + more.length) tail with
        | ok t => rw [htail] at h; cases h
        | error defect =>
          rw [htail] at h
          cases h
          have hshorter : tail.length < length := by
            simp only [← hlength, List.length_cons, List.length_append]
            omega
          obtain ⟨t, behind, rfl, hindex⟩ := ih tail.length hshorter htail rfl
          have hencode : encode (c :: t) = lead :: more ++ encode t := by
            rw [encode, List.flatMap_cons, hc, encode]
          refine ⟨c :: t, behind, ?_, ?_⟩
          · rw [hencode]
            simp
          · rw [hencode, hindex]
            simp only [List.length_cons, List.length_append]
            omega

/-- no text reaches over the first defect -/
theorem le_index_of_error (h : decodeFrom 0 index bs = .error d) : index ≤ d.index := by
  obtain ⟨t, rest, -, hindex⟩ := decodeFrom_error h
  omega

/-- **The first defect** is behind the longest beginning that is well-formed. -/
theorem decode_error (h : decode bs = .error d) :
    IsGreatest {n | WellFormed (bs.take n)} d.index := by
  constructor
  · obtain ⟨t, rest, rfl, hindex⟩ := decodeFrom_error h
    rw [Nat.zero_add] at hindex
    exact ⟨t, by rw [hindex, List.take_left]⟩
  · rintro n ⟨t, ht⟩
    have hsplit : bs = encode t ++ bs.drop n := by rw [← ht, List.take_append_drop]
    have hlength : n ≤ (encode t).length := by
      by_contra hlonger
      have hwhole : bs.take n = bs := by
        refine List.take_of_length_le ?_
        by_contra hn
        rw [← ht, List.length_take] at hlonger
        omega
      rw [← hwhole, ht, decode_encode] at h
      cases h
    rw [hsplit, decode, decodeFrom_append] at h
    cases hrest : decodeFrom 0 (0 + (encode t).length) (bs.drop n) with
    | ok u => rw [hrest] at h; cases h
    | error defect =>
      rw [hrest] at h
      cases h
      have hle := le_index_of_error hrest
      omega

/-! ## Defects shown -/

theorem decodeLossyFrom_skip (skipped rest : Bytes) :
    decodeLossyFrom skipped.length (skipped ++ rest) = decodeLossyFrom 0 rest := by
  induction skipped with
  | nil => rfl
  | cons b skipped ih => rw [List.length_cons, List.cons_append, decodeLossyFrom, ih]

theorem decodeLossy_encode (t : Text) : decodeLossy (encode t) = t := by
  rw [decodeLossy]
  induction t with
  | nil => rfl
  | cons c t ih =>
    obtain ⟨lead, more, hc, hsequence⟩ := sequence_encodeChar c (encode t)
    have hencode : encode (c :: t) = lead :: (more ++ encode t) := by
      simp only [encode, List.flatMap_cons, hc, List.cons_append]
    rw [hencode, decodeLossyFrom, hsequence]
    simp only [Nat.add_sub_cancel, decodeLossyFrom_skip, ih]

/-- something is shown for whatever there is -/
theorem decodeLossy_ne_nil (h : bs ≠ []) : decodeLossy bs ≠ [] := by
  obtain ⟨lead, rest, rfl⟩ := List.exists_cons_of_ne_nil h
  rw [decodeLossy, decodeLossyFrom]
  cases sequence lead rest <;> exact List.cons_ne_nil _ _

/-- an ASCII character is shown for its own byte only -/
theorem mem_decodeLossyFrom {skip : Nat} {c : Char} (h : c ∈ decodeLossyFrom skip bs)
    (hascii : c.toNat < 0x80) : ∃ b ∈ bs, b.toNat = c.toNat := by
  have hother : c ≠ '\uFFFD' := by
    rintro rfl
    exact absurd hascii (by decide)
  induction bs generalizing skip with
  | nil => exact absurd h List.not_mem_nil
  | cons lead rest ih =>
    have hrest : ∀ skip, c ∈ decodeLossyFrom skip rest → ∃ b ∈ lead :: rest, b.toNat = c.toNat := by
      intro skip hc
      obtain ⟨b, hb, hnumber⟩ := ih hc
      exact ⟨b, List.mem_cons_of_mem lead hb, hnumber⟩
    cases skip with
    | succ skip => exact hrest skip h
    | zero =>
      rw [decodeLossyFrom] at h
      cases hsequence : sequence lead rest with
      | scalar d size =>
        rw [hsequence] at h
        rcases List.mem_cons.1 h with rfl | h
        · obtain ⟨more, tail, -, -, hencode⟩ := encodeChar_of_sequence hsequence
          rw [encodeChar, if_pos hascii] at hencode
          exact ⟨lead, List.mem_cons_self, by
            rw [← (List.cons.inj hencode).1, toNat_byte (by omega)]⟩
        · exact hrest _ h
      | malformed size =>
        rw [hsequence] at h
        exact hrest _ (List.mem_of_ne_of_mem hother h)
      | truncated =>
        rw [hsequence] at h
        exact absurd (List.mem_singleton.1 h) hother

theorem mem_decodeLossy {c : Char} (h : c ∈ decodeLossy bs) (hascii : c.toNat < 0x80) :
    ∃ b ∈ bs, b.toNat = c.toNat := mem_decodeLossyFrom h hascii

end CodeCache.Utf8
