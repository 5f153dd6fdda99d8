/-
The caches of simulated engines as a format: what is written into one, and what comes back out.

A cache has its source in it whole, so its decoders lose nothing: the header gives the size in UTF-16
units as far as its four bytes hold it (`parse_sealed`), the payload gives the text, and both together
with the build give the cache back (`cacheOf_inj`).

`Balanced` says of a whole text what the compiler finds out on one way through it, with no more than
a count of open brackets to remember (`balanced_iff`).

Main result, `compile_faithful`.
-/
import CodeCache.Proofs.Engine.SealedCaches

namespace CodeCache.SimulatedEngine

/-! ## Brackets -/

/-- read from left to right, brackets of any kind are closed only while some are open, and in the end
all are -/
structure Balanced (t : Text) : Prop where
  never_below : ∀ read, read <+: t → read.countP isClosing ≤ read.countP isOpening
  level : t.countP isClosing = t.countP isOpening

theorem isClosing_of_isOpening {c : Char} (h : isOpening c = true) : isClosing c = false := by
  simp only [isOpening, Bool.or_eq_true, beq_iff_eq] at h
  rcases h with (rfl | rfl) | rfl <;> rfl

/-- every prefix of a text with one character more is empty or begins with that character -/
theorem forall_prefix_cons {P : Text → Prop} {c : Char} {t : Text} :
    (∀ read, read <+: c :: t → P read) ↔ P [] ∧ ∀ read, read <+: t → P (c :: read) := by
  constructor
  · intro h
    exact ⟨h [] List.nil_prefix, fun read hread => h _ ((List.prefix_cons_inj c).2 hread)⟩
  · rintro ⟨hnil, hcons⟩ read hread
    rcases List.prefix_cons_iff.1 hread with rfl | ⟨rest, rfl, hrest⟩
    · exact hnil
    · exact hcons rest hrest

/-- one text behind another is balanced if the first never closes one bracket too many, and the second
closes what the first leaves open; brackets that are open already count as read, and each character
moves them by one at most -/
theorem balanced_append_iff (depth : Nat) (s t : Text) :
    balanced depth (s ++ t) = true ↔
      (∀ read, read <+: s → read.countP isClosing ≤ depth + read.countP isOpening) ∧
        balanced (depth + s.countP isOpening - s.countP isClosing) t = true := by
  induction s generalizing depth with
  | nil =>
    simp only [List.nil_append, List.prefix_nil, forall_eq, List.countP_nil, Nat.zero_le, true_and,
      Nat.add_zero, Nat.sub_zero]
  | cons c s ih =>
    rw [List.cons_append, forall_prefix_cons]
    by_cases hopen : isOpening c = true
    · have hclose := isClosing_of_isOpening hopen
      simp only [balanced, hopen, if_true, ih, List.countP_cons, hclose, List.countP_nil]
      simp only [Bool.false_eq_true, if_false, Nat.add_zero, Nat.zero_le, true_and,
        Nat.add_right_comm depth 1, Nat.add_assoc]
    by_cases hclose : isClosing c = true
    · cases depth with
      | zero =>
        -- the bracket alone is read, and already closes one too many
        simp only [balanced, hopen, hclose, if_true, if_false, Bool.false_eq_true, false_iff]
        rintro ⟨⟨-, hread⟩, -⟩
        have hone := hread [] List.nil_prefix
        simp [hopen, hclose] at hone
      | succ depth =>
        simp only [balanced, hopen, hclose, if_true, if_false, Bool.false_eq_true, ih,
          List.countP_cons, List.countP_nil, Nat.add_zero, Nat.zero_le, true_and,
          Nat.add_right_comm depth 1, Nat.add_le_add_iff_right, Nat.add_sub_add_right]
    · simp only [balanced, hopen, hclose, if_false, Bool.false_eq_true, ih, List.countP_cons,
        List.countP_nil, Nat.add_zero, Nat.zero_le, true_and]

theorem balanced_iff (depth : Nat) (t : Text) :
    balanced depth t = true ↔
      (∀ read, read <+: t → read.countP isClosing ≤ depth + read.countP isOpening) ∧
        t.countP isClosing = depth + t.countP isOpening := by
  rw [← List.append_nil t, balanced_append_iff, List.append_nil, balanced, beq_iff_eq]
  constructor
  · rintro ⟨hread, hlevel⟩
    have hall := hread t (List.prefix_refl t)
    exact ⟨hread, by omega⟩
  · rintro ⟨hread, hlevel⟩
    exact ⟨hread, by omega⟩

theorem balanced_zero_iff (t : Text) : balanced 0 t = true ↔ Balanced t := by
  rw [balanced_iff]
  constructor
  · rintro ⟨hread, hall⟩
    exact ⟨by simpa using hread, by simpa using hall⟩
  · rintro ⟨hread, hall⟩
    exact ⟨by simpa using hread, by simpa using hall⟩

instance (t : Text) : Decidable (Balanced t) := decidable_of_iff _ (balanced_zero_iff t)

/-! ## Decoding -/

theorem parse_sealed {fingerprint : Bytes} (source : Text) (hf : fingerprint.length = 8) :
    Header.parse (sealed fingerprint source) =
      .ok ⟨UInt32.ofNat (Text.units source), fingerprint, 20 + Utf8.size source⟩ := by
  have hseal : ((sealed fingerprint source).drop Header.fingerprintOffset).take
      (Header.fingerprintEnd - Header.fingerprintOffset) = fingerprint := by
    rw [Header.fingerprintOffset, drop_sealed]
    exact List.take_left' hf
  rw [Header.parse, declaredLength_sealed source hf, length_sealed source hf, Utf8.length_encode]
  simp only [hseal]

theorem decode_sealed {fingerprint : Bytes} (source : Text) (hf : fingerprint.length = 8) :
    Utf8.decode ((sealed fingerprint source).drop 20) = .ok source := by
  rw [drop_sealed_payload source hf, Utf8.decode_encode]

/-- builds are told apart by their fingerprints -/
theorem fingerprint_inj {e f : SimulatedEngine} :
    e.fingerprint = f.fingerprint ↔ e.build = f.build := by
  rw [fingerprint, fingerprint, LittleEndian.encode_inj e.build.toNat_lt f.build.toNat_lt,
    UInt64.toNat_inj]

/-- a cache tells its build and its source -/
theorem cacheOf_inj {e f : SimulatedEngine} {s t : Text} :
    e.cacheOf s = f.cacheOf t ↔ e.build = f.build ∧ s = t := by
  rw [cacheOf_eq_sealed, cacheOf_eq_sealed]
  constructor
  · intro h
    have hseal : e.fingerprint ++ Utf8.encode s = f.fingerprint ++ Utf8.encode t := by
      rw [← drop_sealed, ← drop_sealed, h]
    obtain ⟨hfingerprint, hpayload⟩ :=
      List.append_inj hseal (e.length_fingerprint.trans f.length_fingerprint.symm)
    exact ⟨fingerprint_inj.1 hfingerprint, Utf8.encode_inj.1 hpayload⟩
  · rintro ⟨hbuild, rfl⟩
    rw [fingerprint_inj.2 hbuild]

/-! ## Compiling -/

theorem compile_eq_ok_iff {e : SimulatedEngine} {source : Text} {data : Bytes} :
    (e.compile source).1 = .ok data ↔ Balanced source ∧ data = e.cacheOf source := by
  rw [← balanced_zero_iff, compile]
  split_ifs with hbalanced
  · simp only [hbalanced, true_and, Except.ok.injEq, eq_comm]
  · simp only [hbalanced, false_and, reduceCtorEq]

/-- **Caches are a faithful format.** Every source goes to the end of the log, and nothing else about
the engine changes. The sources that compile are those whose brackets are balanced. A cache of one
has twenty bytes more than the source; its header gives the length of the source in UTF-16 units
modulo 2 ^ 32, the fingerprint of the build and the size of the cache; its payload is the source. And
no engine of another build, and no other source, has the same cache. -/
theorem compile_faithful (e : SimulatedEngine) (source : Text) :
    (e.compile source).2 = { e with compiled := e.compiled ++ [source] } ∧
    ((∃ data, (e.compile source).1 = .ok data) ↔ Balanced source) ∧
    ∀ data, (e.compile source).1 = .ok data →
      data.length = 20 + Utf8.size source ∧
      (∃ header, Header.parse data = .ok header ∧
        header.sourceLength.toNat = Text.units source % 2 ^ 32 ∧
        header.fingerprint = e.fingerprint ∧ header.totalLength = data.length) ∧
      Utf8.decode (data.drop 20) = .ok source ∧
      ∀ (f : SimulatedEngine) other, (f.compile other).1 = .ok data ↔ f.build = e.build ∧ other = source := by
  have hlength := e.length_fingerprint
  refine ⟨rfl, ?_, ?_⟩
  · simp only [compile_eq_ok_iff, exists_and_left, exists_eq, and_true]
  · intro data hdata
    obtain ⟨hbalanced, rfl⟩ := compile_eq_ok_iff.1 hdata
    have hsize : (e.cacheOf source).length = 20 + Utf8.size source := by
      rw [cacheOf_eq_sealed, length_sealed source hlength, Utf8.length_encode]
    refine ⟨hsize, ⟨_, parse_sealed source hlength, ?_, rfl, hsize.symm⟩,
      decode_sealed source hlength, ?_⟩
    · exact UInt32.toNat_ofNat'
    · intro f other
      rw [compile_eq_ok_iff, cacheOf_inj]
      constructor
      · rintro ⟨-, hbuild, rfl⟩
        exact ⟨hbuild.symm, rfl⟩
      · rintro ⟨hbuild, rfl⟩
        exact ⟨hbalanced, hbuild.symm, rfl⟩

/-- brackets that are closed in the wrong order, around a character of four bytes and two units -/
def crossed : Text := "([😀)]".toList

/-- The brackets cross, and still the source compiles; the header counts 6 units for its 8 bytes. An
engine whose build differs in the upper half alone makes another cache of it. -/
theorem compile_faithful_crossed :
    ∃ data, (standard.compile crossed).1 = .ok data ∧ data.length = 28 ∧
      (∃ header, Header.parse data = .ok header ∧ header.sourceLength.toNat = 6) ∧
      ((new ⟨22, 12, 0⟩ 0x100005eed).compile crossed).1 ≠ .ok data := by
  obtain ⟨-, hcompiles, hcache⟩ := compile_faithful standard crossed
  obtain ⟨data, hdata⟩ := hcompiles.2 (by decide)
  obtain ⟨hsize, ⟨header, hheader, hunits, -, -⟩, -, hunique⟩ := hcache data hdata
  refine ⟨data, hdata, hsize, ⟨header, hheader, hunits⟩, ?_⟩
  rw [Ne, hunique]
  decide

end CodeCache.SimulatedEngine
