/-
UTF-8 both ways: what a text encodes to decodes to the text, and nothing else does.

Main result, `decode_eq_ok_iff`. It rests on one law for each width of a character in each direction:
the bytes of a character, whatever follows them, are read as that character (`sequence_encodeChar`),
and bytes that are read as a character are its own (`encodeChar_of_sequence`).
-/
import Mathlib.Tactic
import CodeCache.Text.Utf8

namespace CodeCache.Utf8

/-! ## Bytes as numbers -/

theorem toNat_byte {n : Nat} (h : n < 256) : (UInt8.ofNat n).toNat = n := by
  rw [UInt8.toNat_ofNat']
  omega

theorem leadLength_eq (b : UInt8) :
    leadLength b =
      if b.toNat < 0x80 then 1
      else if 0xC2 ≤ b.toNat ∧ b.toNat ≤ 0xDF then 2
      else if 0xE0 ≤ b.toNat ∧ b.toNat ≤ 0xEF then 3
      else if 0xF0 ≤ b.toNat ∧ b.toNat ≤ 0xF4 then 4
      else 0 := by
  simp only [leadLength, UInt8.lt_iff_toNat_lt, UInt8.le_iff_toNat_le, Bool.and_eq_true,
    decide_eq_true_eq]
  rfl

theorem isContinuation_iff (b : UInt8) :
    isContinuation b = true ↔ 0x80 ≤ b.toNat ∧ b.toNat ≤ 0xBF := by
  simp only [isContinuation, UInt8.le_iff_toNat_le, Bool.and_eq_true, decide_eq_true_eq]
  rfl

/-- what a second byte must be so that no form is overlong, a surrogate or too high -/
theorem isSecond_of (lead b : UInt8) (hb : 0x80 ≤ b.toNat ∧ b.toNat ≤ 0xBF)
    (hE0 : lead.toNat = 0xE0 → 0xA0 ≤ b.toNat) (hED : lead.toNat = 0xED → b.toNat ≤ 0x9F)
    (hF0 : lead.toNat = 0xF0 → 0x90 ≤ b.toNat) (hF4 : lead.toNat = 0xF4 → b.toNat ≤ 0x8F) :
    isSecond lead b = true := by
  simp only [isSecond, beq_iff_eq, ← UInt8.toNat_inj, UInt8.le_iff_toNat_le]
  split_ifs with h1 h2 h3 h4
  · simpa using ⟨hE0 h1, hb.2⟩
  · simpa using ⟨hb.1, hED h2⟩
  · simpa using ⟨hF0 h3, hb.2⟩
  · simpa using ⟨hb.1, hF4 h4⟩
  · exact (isContinuation_iff b).2 hb

/-! ## Sequences -/

section Sequences

variable {lead b c d : UInt8}

/-! For each length that a lead byte gives, what is read behind it. -/

theorem sequence_zero (h : leadLength lead = 0) (rest : Bytes) :
    sequence lead rest = .malformed 1 := by
  unfold sequence
  rw [h]
  rfl

theorem sequence_one (h : leadLength lead = 1) (rest : Bytes) :
    sequence lead rest = .scalar (Char.ofNat lead.toNat) 1 := by
  unfold sequence
  rw [h]
  rfl

theorem sequence_of_two (h : leadLength lead = 2) (rest : Bytes) :
    sequence lead rest =
      match rest with
      | [] => .truncated
      | b :: _ =>
        if isSecond lead b then .scalar (Char.ofNat (lead.toNat % 32 * 64 + payload b)) 2
        else .malformed 1 := by
  unfold sequence
  rw [h]
  rcases rest with _ | ⟨b, tail⟩ <;> rfl

theorem sequence_of_three (h : leadLength lead = 3) (rest : Bytes) :
    sequence lead rest =
      match rest with
      | [] => .truncated
      | [b] => if isSecond lead b then .truncated else .malformed 1
      | b :: c :: _ =>
        if !isSecond lead b then .malformed 1
        else if !isContinuation c then .malformed 2
        else .scalar (Char.ofNat (lead.toNat % 16 * 4096 + payload b * 64 + payload c)) 3 := by
  unfold sequence
  rw [h]
  rcases rest with _ | ⟨b, _ | ⟨c, tail⟩⟩ <;> rfl

theorem sequence_of_four (h : leadLength lead = 4) (rest : Bytes) :
    sequence lead rest =
      match rest with
      | [] => .truncated
      | [b] => if isSecond lead b then .truncated else .malformed 1
      | [b, c] =>
        if !isSecond lead b then .malformed 1
        else if isContinuation c then .truncated else .malformed 2
      | b :: c :: d :: _ =>
        if !isSecond lead b then .malformed 1
        else if !isContinuation c then .malformed 2
        else if !isContinuation d then .malformed 3
        else
          .scalar (Char.ofNat
            (lead.toNat % 8 * 262144 + payload b * 4096 + payload c * 64 + payload d)) 4 := by
  unfold sequence
  rw [h]
  rcases rest with _ | ⟨b, _ | ⟨c, _ | ⟨d, tail⟩⟩⟩ <;> rfl

theorem sequence_two (h : leadLength lead = 2) (hb : isSecond lead b = true) (rest : Bytes) :
    sequence lead (b :: rest) = .scalar (Char.ofNat (lead.toNat % 32 * 64 + payload b)) 2 := by
  rw [sequence_of_two h]
  exact if_pos hb

theorem sequence_three (h : leadLength lead = 3) (hb : isSecond lead b = true)
    (hc : isContinuation c = true) (rest : Bytes) :
    sequence lead (b :: c :: rest) =
      .scalar (Char.ofNat (lead.toNat % 16 * 4096 + payload b * 64 + payload c)) 3 := by
  rw [sequence_of_three h]
  exact (if_neg (by simp [hb])).trans (if_neg (by simp [hc]))

theorem sequence_four (h : leadLength lead = 4) (hb : isSecond lead b = true)
    (hc : isContinuation c = true) (hd : isContinuation d = true) (rest : Bytes) :
    sequence lead (b :: c :: d :: rest) =
      .scalar (Char.ofNat
        (lead.toNat % 8 * 262144 + payload b * 4096 + payload c * 64 + payload d)) 4 := by
  rw [sequence_of_four h]
  exact (if_neg (by simp [hb])).trans ((if_neg (by simp [hc])).trans (if_neg (by simp [hd])))

end Sequences

/-! ## Characters -/

/-- the scalar values: up to U+10FFFF, without the surrogates -/
theorem toNat_scalar (c : Char) : c.toNat < 0xD800 ∨ (0xDFFF < c.toNat ∧ c.toNat < 0x110000) :=
  c.valid

/-- the bytes of a character are read as that character, whatever comes next -/
theorem sequence_encodeChar (c : Char) (rest : Bytes) :
    ∃ lead more, encodeChar c = lead :: more ∧
      sequence lead (more ++ rest) = .scalar c (more.length + 1) := by
  have hscalar := toNat_scalar c
  have hc : Char.ofNat c.toNat = c := Char.ofNat_toNat c
  generalize hn : c.toNat = n at hscalar hc
  simp only [encodeChar, hn]
  split_ifs with h1 h2 h3
  · refine ⟨_, [], rfl, ?_⟩
    have hlead := toNat_byte (n := n) (by omega)
    have hlength : leadLength (.ofNat n) = 1 := by rw [leadLength_eq, hlead, if_pos h1]
    exact (sequence_one hlength _).trans (by rw [hlead, hc]; rfl)
  · refine ⟨_, _, rfl, ?_⟩
    have hlead := toNat_byte (n := 0xC0 + n / 64) (by omega)
    have hb := toNat_byte (n := 0x80 + n % 64) (by omega)
    have hsecond := isSecond_of (.ofNat (0xC0 + n / 64)) (.ofNat (0x80 + n % 64))
      (by omega) (by omega) (by omega) (by omega) (by omega)
    have hlength : leadLength (.ofNat (0xC0 + n / 64)) = 2 := by
      rw [leadLength_eq, hlead, if_neg (by omega), if_pos (by omega)]
    have hvalue : (0xC0 + n / 64) % 32 * 64 + (0x80 + n % 64) % 64 = n := by omega
    exact (sequence_two hlength hsecond _).trans
      (by rw [payload, hlead, hb, hvalue, hc]; rfl)
  · refine ⟨_, _, rfl, ?_⟩
    have hlead := toNat_byte (n := 0xE0 + n / 4096) (by omega)
    have hb := toNat_byte (n := 0x80 + n / 64 % 64) (by omega)
    have hd := toNat_byte (n := 0x80 + n % 64) (by omega)
    have hsecond := isSecond_of (.ofNat (0xE0 + n / 4096))
      (.ofNat (0x80 + n / 64 % 64)) (by omega) (by omega) (by omega) (by omega) (by omega)
    have hthird := (isContinuation_iff (.ofNat (0x80 + n % 64))).2 (by omega)
    have hlength : leadLength (.ofNat (0xE0 + n / 4096)) = 3 := by
      rw [leadLength_eq, hlead, if_neg (by omega), if_neg (by omega), if_pos (by omega)]
    have hvalue : (0xE0 + n / 4096) % 16 * 4096 + (0x80 + n / 64 % 64) % 64 * 64 +
        (0x80 + n % 64) % 64 = n := by omega
    exact (sequence_three hlength hsecond hthird _).trans
      (by rw [payload, payload, hlead, hb, hd, hvalue, hc]; rfl)
  · refine ⟨_, _, rfl, ?_⟩
    have hlead := toNat_byte (n := 0xF0 + n / 262144) (by omega)
    have hb := toNat_byte (n := 0x80 + n / 4096 % 64) (by omega)
    have hd := toNat_byte (n := 0x80 + n / 64 % 64) (by omega)
    have he := toNat_byte (n := 0x80 + n % 64) (by omega)
    have hsecond := isSecond_of (.ofNat (0xF0 + n / 262144))
      (.ofNat (0x80 + n / 4096 % 64)) (by omega) (by omega) (by omega) (by omega) (by omega)
    have hthird := (isContinuation_iff (.ofNat (0x80 + n / 64 % 64))).2 (by omega)
    have hfourth := (isContinuation_iff (.ofNat (0x80 + n % 64))).2 (by omega)
    have hlength : leadLength (.ofNat (0xF0 + n / 262144)) = 4 := by
      rw [leadLength_eq, hlead, if_neg (by omega), if_neg (by omega), if_neg (by omega),
        if_pos (by omega)]
    have hvalue : (0xF0 + n / 262144) % 8 * 262144 + (0x80 + n / 4096 % 64) % 64 * 4096 +
        (0x80 + n / 64 % 64) % 64 * 64 + (0x80 + n % 64) % 64 = n := by omega
    exact (sequence_four hlength hsecond hthird hfourth _).trans
      (by rw [payload, payload, payload, hlead, hb, hd, he, hvalue, hc]; rfl)

/-! ## Texts -/

theorem decodeFrom_skip (skipped rest : Bytes) (index : Nat) :
    decodeFrom skipped.length index (skipped ++ rest) =
      decodeFrom 0 (index + skipped.length) rest := by
  induction skipped generalizing index with
  | nil => rfl
  | cons b skipped ih =>
    rw [List.length_cons, List.cons_append, decodeFrom, ih]
    congr 1
    omega

theorem decodeFrom_encode (t : Text) (index : Nat) : decodeFrom 0 index (encode t) = .ok t := by
  induction t generalizing index with
  | nil => rfl
  | cons c t ih =>
    obtain ⟨lead, more, hc, hsequence⟩ := sequence_encodeChar c (encode t)
    have hencode : encode (c :: t) = lead :: (more ++ encode t) := by
      simp only [encode, List.flatMap_cons, hc, List.cons_append]
    rw [hencode, decodeFrom, hsequence]
    simp only [Nat.add_sub_cancel, decodeFrom_skip, ih]
    rfl

theorem decode_encode (t : Text) : decode (encode t) = .ok t := decodeFrom_encode t 0

/-! ## Well-formed bytes -/

theorem of_leadLength {b : UInt8} {n : Nat} (h : leadLength b = n) :
    (n = 1 → b.toNat < 0x80) ∧ (n = 2 → 0xC2 ≤ b.toNat ∧ b.toNat ≤ 0xDF) ∧
      (n = 3 → 0xE0 ≤ b.toNat ∧ b.toNat ≤ 0xEF) ∧ (n = 4 → 0xF0 ≤ b.toNat ∧ b.toNat ≤ 0xF4) := by
  rw [leadLength_eq] at h
  split_ifs at h <;> omega

theorem of_isSecond {lead b : UInt8} (h : isSecond lead b = true) :
    (0x80 ≤ b.toNat ∧ b.toNat ≤ 0xBF) ∧ (lead.toNat = 0xE0 → 0xA0 ≤ b.toNat) ∧
      (lead.toNat = 0xED → b.toNat ≤ 0x9F) ∧ (lead.toNat = 0xF0 → 0x90 ≤ b.toNat) ∧
      (lead.toNat = 0xF4 → b.toNat ≤ 0x8F) := by
  simp only [isSecond, isContinuation, beq_iff_eq, ← UInt8.toNat_inj, UInt8.le_iff_toNat_le,
    UInt8.reduceToNat] at h
  split_ifs at h <;> simp only [Bool.and_eq_true, decide_eq_true_eq] at h <;> omega

/-- the numbers of the scalar values are those of characters -/
theorem toNat_ofNat {n : Nat} (h : n < 0xD800 ∨ (0xDFFF < n ∧ n < 0x110000)) :
    (Char.ofNat n).toNat = n := by
  have hvalid : n.isValidChar := h
  rw [Char.ofNat, dif_pos hvalid]
  rfl

theorem ofNat_eq {b : UInt8} {n : Nat} (h : n = b.toNat) : UInt8.ofNat n = b := by
  rw [h, UInt8.ofNat_toNat]

section WellFormed

variable {lead b c d : UInt8}

theorem encodeChar_one (h : leadLength lead = 1) :
    encodeChar (Char.ofNat lead.toNat) = [lead] := by
  have hlead := of_leadLength h
  rw [encodeChar, toNat_ofNat (by omega), if_pos (by omega), UInt8.ofNat_toNat]

theorem encodeChar_two (h : leadLength lead = 2) (hb : isSecond lead b = true) :
    encodeChar (Char.ofNat (lead.toNat % 32 * 64 + payload b)) = [lead, b] := by
  have hlead := of_leadLength h
  obtain ⟨hb, -⟩ := of_isSecond hb
  unfold payload
  rw [encodeChar, toNat_ofNat (by omega), if_neg (by omega), if_pos (by omega),
    ofNat_eq (b := lead) (by omega), ofNat_eq (b := b) (by omega)]

theorem encodeChar_three (h : leadLength lead = 3) (hb : isSecond lead b = true)
    (hc : isContinuation c = true) :
    encodeChar (Char.ofNat (lead.toNat % 16 * 4096 + payload b * 64 + payload c)) =
      [lead, b, c] := by
  have hlead := of_leadLength h
  obtain ⟨hb, hE0, hED, -⟩ := of_isSecond hb
  rw [isContinuation_iff] at hc
  unfold payload
  rw [encodeChar, toNat_ofNat (by omega), if_neg (by omega), if_neg (by omega), if_pos (by omega),
    ofNat_eq (b := lead) (by omega), ofNat_eq (b := b) (by omega), ofNat_eq (b := c) (by omega)]

theorem encodeChar_four (h : leadLength lead = 4) (hb : isSecond lead b = true)
    (hc : isContinuation c = true) (hd : isContinuation d = true) :
    encodeChar (Char.ofNat
      (lead.toNat % 8 * 262144 + payload b * 4096 + payload c * 64 + payload d)) =
        [lead, b, c, d] := by
  have hlead := of_leadLength h
  obtain ⟨hb, -, -, hF0, hF4⟩ := of_isSecond hb
  rw [isContinuation_iff] at hc hd
  unfold payload
  rw [encodeChar, toNat_ofNat (by omega), if_neg (by omega), if_neg (by omega), if_neg (by omega),
    ofNat_eq (b := lead) (by omega), ofNat_eq (b := b) (by omega), ofNat_eq (b := c) (by omega),
    ofNat_eq (b := d) (by omega)]

end WellFormed

theorem leadLength_cases (b : UInt8) :
    leadLength b = 0 ∨ leadLength b = 1 ∨ leadLength b = 2 ∨ leadLength b = 3 ∨
      leadLength b = 4 := by
  rw [leadLength_eq]
  split_ifs <;> simp

/-- what is read as a character are the bytes of that character -/
theorem encodeChar_of_sequence {lead : UInt8} {rest : Bytes} {char : Char} {size : Nat}
    (h : sequence lead rest = .scalar char size) :
    ∃ more tail, rest = more ++ tail ∧ size = more.length + 1 ∧ encodeChar char = lead :: more := by
  rcases leadLength_cases lead with hlead | hlead | hlead | hlead | hlead
  · rw [sequence_zero hlead] at h
    cases h
  · rw [sequence_one hlead] at h
    cases h
    exact ⟨[], _, rfl, rfl, encodeChar_one hlead⟩
  · rw [sequence_of_two hlead] at h
    split at h
    · cases h
    · next b tail =>
      split_ifs at h with hb
      cases h
      exact ⟨[b], tail, rfl, rfl, encodeChar_two hlead hb⟩
  · rw [sequence_of_three hlead] at h
    split at h
    · cases h
    · split_ifs at h
    · next b c tail =>
      split_ifs at h with hb hc
      cases h
      simp only [Bool.not_eq_true, Bool.not_eq_false'] at hb hc
      exact ⟨[b, c], tail, rfl, rfl, encodeChar_three hlead hb hc⟩
  · rw [sequence_of_four hlead] at h
    split at h
    · cases h
    · split_ifs at h
    · split_ifs at h
    · next b c d tail =>
      split_ifs at h with hb hc hd
      cases h
      simp only [Bool.not_eq_true, Bool.not_eq_false'] at hb hc hd
      exact ⟨[b, c, d], tail, rfl, rfl, encodeChar_four hlead hb hc hd⟩

/-- the induction is on the text, as the bytes of one character come off together -/
theorem encode_of_decodeFrom {t : Text} {bs : Bytes} {index : Nat}
    (h : decodeFrom 0 index bs = .ok t) : encode t = bs := by
  induction t generalizing bs index with
  | nil =>
    cases bs with
    | nil => rfl
    | cons lead rest =>
      simp only [decodeFrom] at h
      split at h
      · cases hrest : decodeFrom _ (index + 1) rest <;> rw [hrest] at h <;> cases h
      · cases h
      · cases h
  | cons c t ih =>
    cases bs with
    | nil => cases h
    | cons lead rest =>
      simp only [decodeFrom] at h
      split at h
      · next char size hchar =>
        obtain ⟨more, tail, rfl, rfl, hencode⟩ := encodeChar_of_sequence hchar
        rw [Nat.add_sub_cancel, decodeFrom_skip] at h
        cases htail : decodeFrom 0 (index + 1 + more.length) tail with
        | error defect => rw [htail] at h; cases h
        | ok u =>
          rw [htail] at h
          cases h
          have hrest := ih htail
          rw [encode] at hrest
          rw [encode, List.flatMap_cons, hencode, hrest]
          rfl
      · cases h
      · cases h

/-- bytes decode to a text exactly when they are its encoding -/
theorem decode_eq_ok_iff {bs : Bytes} {t : Text} : decode bs = .ok t ↔ bs = encode t := by
  constructor
  · intro h
    exact (encode_of_decodeFrom h).symm
  · rintro rfl
    exact decode_encode t

theorem decode?_eq_some_iff {bs : Bytes} {t : Text} : decode? bs = some t ↔ bs = encode t := by
  rw [← decode_eq_ok_iff, decode?]
  cases decode bs <;> simp [Except.toOption]

/-! ## Bytes of a text -/

theorem mem_encodeChar {b : UInt8} {c : Char} (h : b ∈ encodeChar c) :
    b.toNat = c.toNat ∨ 0x80 ≤ b.toNat := by
  simp only [encodeChar] at h
  split_ifs at h with h1 h2 h3
  · rw [List.mem_singleton.1 h, toNat_byte (by omega)]
    exact .inl rfl
  all_goals
    have hscalar := toNat_scalar c
    simp only [List.mem_cons, List.not_mem_nil, or_false] at h
    refine .inr ?_
  · rcases h with rfl | rfl <;> rw [toNat_byte (by omega)] <;> omega
  · rcases h with rfl | rfl | rfl <;> rw [toNat_byte (by omega)] <;> omega
  · rcases h with rfl | rfl | rfl | rfl <;> rw [toNat_byte (by omega)] <;> omega

/-- the bytes below `0x80` are the characters below `0x80` -/
theorem mem_encode {b : UInt8} {t : Text} (h : b ∈ encode t) :
    (∃ c ∈ t, c.toNat = b.toNat) ∨ 0x80 ≤ b.toNat := by
  obtain ⟨c, hc, hb⟩ := List.mem_flatMap.1 h
  exact (mem_encodeChar hb).imp_left fun heq => ⟨c, hc, heq.symm⟩

/-! ## Sizes -/

theorem size_eq_sum (t : Text) : size t = (t.map sizeOf).sum := by
  rw [List.sum_eq_foldl, List.foldl_map]
  rfl

theorem size_append (s t : Text) : size (s ++ t) = size s + size t := by
  simp [size_eq_sum]

theorem length_encodeChar (c : Char) : (encodeChar c).length = sizeOf c := by
  simp only [encodeChar, sizeOf]
  split_ifs <;> rfl

/-- the encoding has the size of the text -/
theorem length_encode (t : Text) : (encode t).length = size t := by
  rw [encode, List.length_flatMap, size_eq_sum]
  congr 1
  exact List.map_congr_left fun c _ => length_encodeChar c

theorem encode_inj {s t : Text} : encode s = encode t ↔ s = t := by
  constructor
  · intro h
    have hdecode : decode (encode s) = decode (encode t) := congrArg decode h
    rwa [decode_encode, decode_encode, Except.ok.injEq] at hdecode
  · rintro rfl
    rfl

/-- a text has no more characters than bytes -/
theorem length_le_encode (t : Text) : t.length ≤ (encode t).length := by
  induction t with
  | nil => exact Nat.le_refl 0
  | cons c t ih =>
    obtain ⟨lead, more, hc, -⟩ := sequence_encodeChar c []
    simp only [encode, List.flatMap_cons, hc, List.length_append, List.length_cons] at ih ⊢
    omega

end CodeCache.Utf8
