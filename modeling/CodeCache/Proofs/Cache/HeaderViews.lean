/-
The view of a header, and its fingerprint in hexadecimal, lose nothing.

- The length that is read can be written again: into any buffer that has room, where it is read back,
  and into its own, which stays as it is (`setDeclaredLength_of_declared`).
- The fingerprint is cut into words and each word written in digits. No digit is a blank, so the text
  falls apart into the digits of the words again (`groups_fingerprintHex`), and the digits of all
  words are those of the fingerprint.

Main result, `view_lossless`, for buffers of every size.
-/
import CodeCache.Proofs.Cache.Patching
import CodeCache.Proofs.Text.Cutting
import CodeCache.Proofs.Text.Hexadecimal

namespace CodeCache.Header

variable {buffer : Bytes} {length : UInt32}

/-! ## The declared length -/

/-- the bytes of the length field, in a buffer that has one -/
theorem encode_declared (h : declaredLength buffer = .ok length) :
    fingerprintOffset ≤ buffer.length ∧
      LittleEndian.encode 4 length.toNat = (buffer.drop lengthOffset).take 4 := by
  unfold declaredLength at h
  split_ifs at h with hlen
  have hfour : ((buffer.drop lengthOffset).take 4).length = 4 := by
    simp only [fingerprintOffset, lengthOffset, List.length_take, List.length_drop] at hlen ⊢
    omega
  have hbound : LittleEndian.decode ((buffer.drop lengthOffset).take 4) < 2 ^ 32 := by
    have hlt := LittleEndian.decode_lt ((buffer.drop lengthOffset).take 4)
    rwa [hfour] at hlt
  have hbytes := LittleEndian.encode_decode ((buffer.drop lengthOffset).take 4)
  rw [hfour] at hbytes
  refine ⟨hlen, ?_⟩
  rw [← Except.ok.inj h, UInt32.toNat_ofNat', Nat.mod_eq_of_lt hbound, hbytes]

/-- writing what was read changes nothing -/
theorem setDeclaredLength_of_declared (h : declaredLength buffer = .ok length) :
    setDeclaredLength buffer length = (.ok (), buffer) := by
  obtain ⟨hlen, hbytes⟩ := encode_declared h
  have hrest : (buffer.drop lengthOffset).drop 4 = buffer.drop fingerprintOffset := by
    rw [List.drop_drop]
    rfl
  rw [setDeclaredLength, if_pos hlen, hbytes, ← hrest, List.append_assoc, List.take_append_drop,
    List.take_append_drop]

/-- what is written into a buffer with room is read back -/
theorem exists_written (hroom : fingerprintOffset ≤ buffer.length) (length : UInt32) :
    ∃ written, setDeclaredLength buffer length = (.ok (), written) ∧
      declaredLength written = .ok length := by
  have hok : (setDeclaredLength buffer length).1 = .ok () := by
    rw [setDeclaredLength, if_pos hroom]
  exact ⟨_, Prod.ext hok rfl, declaredLength_setDeclaredLength hok⟩

/-! ## Words in hexadecimal -/

theorem flatten_words (bs : Bytes) : (words bs).flatten = bs := by
  fun_induction words bs with
  | case1 a b c d rest ih => rw [List.flatten_cons, ih]; rfl
  | case2 => rfl
  | case3 short => simp

theorem words_ne_nil {bs : Bytes} (h : bs ≠ []) : words bs ≠ [] := by
  intro hnil
  rw [← flatten_words bs, hnil] at h
  exact h rfl

/-- a word has at most four bytes, and at least one -/
theorem length_word {bs word : Bytes} (h : word ∈ words bs) : word ≠ [] ∧ word.length ≤ 4 := by
  fun_induction words bs with
  | case1 a b c d rest ih =>
    rcases List.mem_cons.1 h with rfl | h
    · exact ⟨List.cons_ne_nil _ _, le_rfl⟩
    · exact ih h
  | case2 => exact absurd h List.not_mem_nil
  | case3 short hlong hne =>
    rw [List.mem_singleton.1 h]
    refine ⟨hne, Nat.le_of_not_lt ?_⟩
    intro hfive
    match short, hfive with
    | a :: b :: c :: d :: rest, _ => exact hlong a b c d rest rfl

/-- only the last word can have fewer than four -/
theorem length_word_of_mem_dropLast {bs word : Bytes} (h : word ∈ (words bs).dropLast) :
    word.length = 4 := by
  fun_induction words bs with
  | case1 a b c d rest ih =>
    cases hrest : words rest with
    | nil =>
      rw [hrest] at h
      exact absurd h List.not_mem_nil
    | cons next more =>
      rw [hrest, List.dropLast_cons_of_ne_nil (List.cons_ne_nil next more), ← hrest] at h
      rcases List.mem_cons.1 h with rfl | h
      · rfl
      · exact ih h
  | case2 => exact absurd h List.not_mem_nil
  | case3 short => exact absurd h List.not_mem_nil

/-- the digits between two blanks -/
def groups (t : Text) : List Text := Text.splitOn ' ' t

/-- a text of lowercase hexadecimal digits in groups of eight, a blank between two groups, and only
the last group possibly shorter -/
structure InGroups (t : Text) : Prop where
  digits : ∀ group ∈ groups t, ∀ c ∈ group, Hex.IsDigit c
  full : ∀ group ∈ (groups t).dropLast, group.length = 8
  last : ∀ group ∈ (groups t).getLast?, group.length ≤ 8 ∧ (t ≠ [] → group ≠ [])

/-- the bytes that the digits of all groups write -/
def bytesOf? (t : Text) : Option Bytes := Hex.decode? (groups t).flatten

variable {header : Header}

/-- the text falls apart into the digits of the words -/
theorem groups_fingerprintHex (h : header.fingerprint ≠ []) :
    groups header.fingerprintHex = (words header.fingerprint).map Hex.encode := by
  refine Text.splitOn_join ?_ ?_
  · simpa using words_ne_nil h
  · intro group hgroup hblank
    obtain ⟨word, -, rfl⟩ := List.mem_map.1 hgroup
    exact absurd (Hex.isDigit_of_mem_encode hblank) (by decide)

theorem fingerprintHex_of_nil (h : header.fingerprint = []) : header.fingerprintHex = [] := by
  rw [fingerprintHex, h]
  rfl

theorem inGroups_fingerprintHex (header : Header) : InGroups header.fingerprintHex := by
  by_cases hempty : header.fingerprint = []
  · rw [fingerprintHex_of_nil hempty]
    constructor <;> simp [groups, Text.splitOn, Text.splitWhere]
  have hgroups := groups_fingerprintHex hempty
  refine ⟨?_, ?_, ?_⟩
  · intro group hgroup c hc
    rw [hgroups] at hgroup
    obtain ⟨word, -, rfl⟩ := List.mem_map.1 hgroup
    exact Hex.isDigit_of_mem_encode hc
  · intro group hgroup
    rw [hgroups, ← List.map_dropLast] at hgroup
    obtain ⟨word, hword, rfl⟩ := List.mem_map.1 hgroup
    rw [Hex.length_encode, length_word_of_mem_dropLast hword]
  · intro group hgroup
    rw [hgroups] at hgroup
    obtain ⟨word, hword, rfl⟩ := List.mem_map.1 (List.mem_of_getLast? hgroup)
    obtain ⟨hne, hlen⟩ := length_word hword
    have hlength := Hex.length_encode word
    refine ⟨by omega, fun _ hnil => hne (List.eq_nil_of_length_eq_zero ?_)⟩
    rw [hnil, List.length_nil] at hlength
    omega

/-- **Fingerprints are read back** from their hexadecimal form -/
theorem bytesOf?_fingerprintHex (header : Header) :
    bytesOf? header.fingerprintHex = some header.fingerprint := by
  by_cases hempty : header.fingerprint = []
  · rw [fingerprintHex_of_nil hempty, hempty]
    rfl
  rw [bytesOf?, groups_fingerprintHex hempty, ← Hex.encode_flatten, flatten_words,
    Hex.decode?_encode]

/-! ## Views -/

theorem parse_short (h : buffer.length < 12) :
    parse buffer = .error (.invalidBuffer 12 buffer.length) := by
  have hshort : ¬fingerprintOffset ≤ buffer.length := Nat.not_le.2 h
  rw [parse, declaredLength, if_neg hshort]
  rfl

/-- the fingerprint ends at its own end or that of the buffer, whichever comes first -/
theorem parse_long (h : 12 ≤ buffer.length) :
    ∃ length, declaredLength buffer = .ok length ∧
      parse buffer = .ok ⟨length, (buffer.drop 12).take (min 20 buffer.length - 12), buffer.length⟩ := by
  have hroom : fingerprintOffset ≤ buffer.length := h
  have htake : (buffer.drop fingerprintOffset).take (fingerprintEnd - fingerprintOffset) =
      (buffer.drop 12).take (min 20 buffer.length - 12) := by
    rw [fingerprintOffset, fingerprintEnd, List.take_eq_take_iff, List.length_drop]
    omega
  obtain ⟨length, hlength⟩ : ∃ length, declaredLength buffer = .ok length := ⟨_, if_pos hroom⟩
  exact ⟨length, hlength, by rw [parse, hlength, htake]⟩

/-- **A header view loses nothing.** A buffer of fewer than twelve bytes has no header, and the error
gives its size. Any other buffer has one. Its length, written into any buffer with room for a header,
is read back from there, and written into the buffer it comes from leaves this as it is. Its
fingerprint is bytes 12..20, or as many of them as there are. The hexadecimal form of the fingerprint
is in groups of eight lowercase digits, the last one possibly shorter, and gives the fingerprint
back. -/
theorem view_lossless (buffer : Bytes) :
    if buffer.length < 12 then parse buffer = .error (.invalidBuffer 12 buffer.length)
    else ∃ header, parse buffer = .ok header ∧ declaredLength buffer = .ok header.sourceLength ∧
      header.totalLength = buffer.length ∧
      (∀ other : Bytes, 12 ≤ other.length →
        ∃ written, setDeclaredLength other header.sourceLength = (.ok (), written) ∧
          declaredLength written = .ok header.sourceLength) ∧
      setDeclaredLength buffer header.sourceLength = (.ok (), buffer) ∧
      header.fingerprint = (buffer.drop 12).take (min 20 buffer.length - 12) ∧
      InGroups header.fingerprintHex ∧
      bytesOf? header.fingerprintHex = some header.fingerprint := by
  split_ifs with hshort
  · exact parse_short hshort
  · obtain ⟨length, hlength, hparse⟩ := parse_long (Nat.not_lt.1 hshort)
    refine ⟨_, hparse, hlength, rfl, ?_, setDeclaredLength_of_declared hlength, rfl,
      inGroups_fingerprintHex _, bytesOf?_fingerprintHex _⟩
    intro other hroom
    exact exists_written hroom length

/-- a buffer that ends inside the second word of its fingerprint -/
def cutBuffer : Bytes :=
  [0, 0, 0, 0, 0, 0, 0, 0, 4, 3, 2, 1, 0xa0, 0xa1, 0xa2, 0xa3, 0x0e, 0xff]

/-- its length goes into an empty header, and six bytes of fingerprint come back from two groups -/
theorem view_lossless_cut :
    ∃ header, parse cutBuffer = .ok header ∧ header.sourceLength = 0x01020304 ∧
      header.fingerprintHex = "a0a1a2a3 0eff".toList ∧
      bytesOf? "a0a1a2a3 0eff" = some [0xa0, 0xa1, 0xa2, 0xa3, 0x0e, 0xff] ∧
      12 ≤ (List.replicate 12 (0 : UInt8)).length ∧
      ∃ written, setDeclaredLength (List.replicate 12 0) 0x01020304 = (.ok (), written) ∧
        declaredLength written = .ok 0x01020304 := by
  have hparse : parse cutBuffer =
      .ok ⟨0x01020304, [0xa0, 0xa1, 0xa2, 0xa3, 0x0e, 0xff], 18⟩ := by decide
  have hview := view_lossless cutBuffer
  rw [if_neg (by decide)] at hview
  obtain ⟨header, hheader, -, -, hwritten, -, -, -, hback⟩ := hview
  obtain rfl := Except.ok.inj (hheader.symm.trans hparse)
  exact ⟨_, hparse, rfl, by decide, hback, by decide, hwritten (List.replicate 12 0) (by decide)⟩

end CodeCache.Header
