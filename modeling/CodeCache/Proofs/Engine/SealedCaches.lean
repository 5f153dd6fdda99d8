/-
The caches of simulated engines, whoever's fingerprint they carry.

A cache is sealed with eight fingerprint bytes between the length of its source and the source
itself. `sealed` leaves those bytes free, since a patched cache may carry halves of two of them.
- `copySpans_narrow`, `copySpans_wide`: what patching does to the seal, and that it does nothing
  else.
- `accepts_sealed`: an engine accepts a sealed cache exactly when the seal is its own fingerprint
  and the placeholder has the length that is written down; `run_compiled` is the case of a cache
  that nobody patched.
- `half_fingerprint_eq_iff`: mixing the halves of two fingerprints gives one of them back exactly
  when the builds agree in the other half.
-/
import CodeCache.Proofs.Cache.Patching
import CodeCache.Proofs.Text.Utf8
import CodeCache.Engine.Simulated

namespace CodeCache

namespace ModuleWrapper

/-- unwrapping undoes wrapping, and nothing else can be unwrapped -/
theorem unwrap?_eq_some_iff {t body : Text} : unwrap? t = some body ↔ t = wrap body := by
  simp only [unwrap?, wrap, Option.bind_eq_some_iff, List.isPrefixOf?_eq_some_iff_append_eq,
    List.isSuffixOf?_eq_some_iff_append_eq]
  constructor
  · rintro ⟨rest, rfl, rfl⟩
    rw [List.append_assoc]
  · rintro rfl
    exact ⟨body ++ tail, by rw [List.append_assoc], rfl⟩

theorem unwrap?_wrap (body : Text) : unwrap? (wrap body) = some body :=
  unwrap?_eq_some_iff.2 rfl

end ModuleWrapper

namespace SimulatedEngine

/-- a cache of a source under any fingerprint -/
def sealed (fingerprint : Bytes) (source : Text) : Bytes :=
  magic ++ LittleEndian.encode 4 (Text.units source) ++ fingerprint ++ Utf8.encode source

theorem cacheOf_eq_sealed (e : SimulatedEngine) (source : Text) :
    e.cacheOf source = sealed e.fingerprint source := rfl

theorem length_fingerprint (e : SimulatedEngine) : e.fingerprint.length = 8 :=
  LittleEndian.length_encode 8 _

/-- what a sealed cache has in front of its seal -/
def preamble (source : Text) : Bytes := magic ++ LittleEndian.encode 4 (Text.units source)

theorem length_preamble (source : Text) : (preamble source).length = 12 := by
  rw [preamble, List.length_append, LittleEndian.length_encode]
  rfl

theorem sealed_eq (fingerprint : Bytes) (source : Text) :
    sealed fingerprint source = preamble source ++ (fingerprint ++ Utf8.encode source) := by
  simp [sealed, preamble]

section Fields

variable {fingerprint : Bytes} (source : Text)

theorem length_sealed (hf : fingerprint.length = 8) :
    (sealed fingerprint source).length = 20 + (Utf8.encode source).length := by
  rw [sealed_eq, List.length_append, List.length_append, length_preamble, hf]
  omega

theorem take_sealed_magic : (sealed fingerprint source).take 8 = magic := by
  rw [sealed_eq, preamble, List.append_assoc]
  exact List.take_left' rfl

theorem field_sealed :
    ((sealed fingerprint source).drop 8).take 4 = LittleEndian.encode 4 (Text.units source) := by
  have hmagic : magic.length = 8 := rfl
  rw [sealed_eq, preamble, List.append_assoc, List.drop_left' hmagic]
  exact List.take_left' (LittleEndian.length_encode 4 _)

theorem drop_sealed : (sealed fingerprint source).drop 12 = fingerprint ++ Utf8.encode source := by
  rw [sealed_eq]
  exact List.drop_left' (length_preamble source)

theorem drop_sealed_payload (hf : fingerprint.length = 8) :
    (sealed fingerprint source).drop 20 = Utf8.encode source := by
  have hdrop : (sealed fingerprint source).drop 20 =
      ((sealed fingerprint source).drop 12).drop 8 := by rw [List.drop_drop]
  rw [hdrop, drop_sealed]
  exact List.drop_left' hf

/-- the length written down is that of the source, modulo 2 ^ 32 -/
theorem declaredLength_sealed (hf : fingerprint.length = 8) :
    Header.declaredLength (sealed fingerprint source) = .ok (UInt32.ofNat (Text.units source)) := by
  have hlen : Header.fingerprintOffset ≤ (sealed fingerprint source).length := by
    rw [length_sealed source hf, Header.fingerprintOffset]
    omega
  have hfield : ((sealed fingerprint source).drop 8).take 4 =
      LittleEndian.encode 4 (Text.units source) := field_sealed source
  unfold Header.declaredLength
  rw [if_pos hlen, Header.lengthOffset, hfield, LittleEndian.decode_encode]
  congr 1
  apply UInt32.toNat_inj.mp
  simp only [UInt32.toNat_ofNat']
  omega

end Fields

/-! ## Patching a seal -/

section Patching

variable {own other : Bytes} (s t : Text)

/-- the narrow layout replaces the lower half of a seal -/
theorem copySpans_narrow (hown : own.length = 8) (hother : other.length = 8) :
    Patch.copySpans (sealed own s) (sealed other t) LayoutTable.narrow =
      sealed (own.take 4 ++ other.drop 4) t := by
  have hfront : (sealed other t).take 12 = preamble t := by
    rw [sealed_eq]; exact List.take_left' (length_preamble t)
  have hback : (sealed other t).drop 16 = other.drop 4 ++ Utf8.encode t := by
    have hdrop : (sealed other t).drop 16 = ((sealed other t).drop 12).drop 4 := by
      rw [List.drop_drop]
    rw [hdrop, drop_sealed, List.drop_append_of_le_length (by omega)]
  have hmid : ((sealed own s).drop 12).take 4 = own.take 4 := by
    rw [drop_sealed, List.take_append_of_le_length (by omega)]
  change (sealed other t).take 12 ++ ((sealed own s).drop 12).take 4 ++ (sealed other t).drop 16 = _
  rw [hfront, hmid, hback, sealed_eq]
  simp

/-- the wide layout replaces a seal as a whole -/
theorem copySpans_wide (hown : own.length = 8) (hother : other.length = 8) :
    Patch.copySpans (sealed own s) (sealed other t) LayoutTable.wide = sealed own t := by
  have hhalf : (own.take 4 ++ other.drop 4).length = 8 := by
    simp only [List.length_append, List.length_take, List.length_drop]; omega
  have hfirst : Patch.copySpans (sealed own s) (sealed other t) LayoutTable.wide =
      Patch.copySpan (sealed own s) (sealed (own.take 4 ++ other.drop 4) t)
        ⟨16, 20, by decide, by decide⟩ := by
    rw [← copySpans_narrow s t hown hother]
    rfl
  have hfront : (sealed (own.take 4 ++ other.drop 4) t).take 16 = preamble t ++ own.take 4 := by
    rw [sealed_eq, List.append_assoc, ← List.append_assoc (preamble t)]
    exact List.take_left' (by simp [length_preamble, hown])
  have hmid : ((sealed own s).drop 16).take 4 = own.drop 4 := by
    have hdrop : (sealed own s).drop 16 = ((sealed own s).drop 12).drop 4 := by rw [List.drop_drop]
    rw [hdrop, drop_sealed, List.drop_append_of_le_length (by omega)]
    exact List.take_left' (by simp [hown])
  rw [hfirst]
  change (sealed _ t).take 16 ++ ((sealed own s).drop 16).take 4 ++ (sealed _ t).drop 20 = _
  rw [hfront, hmid, drop_sealed_payload t hhalf, sealed_eq, List.append_assoc (preamble t),
    List.take_append_drop, List.append_assoc]

end Patching

/-! ## Checking and running -/

theorem eq_cacheOf_of_compile {e : SimulatedEngine} {source : Text} {data : Bytes}
    (h : (e.compile source).1 = .ok data) : data = e.cacheOf source := by
  rw [compile] at h
  split_ifs at h
  exact (Except.ok.inj h).symm

theorem accepts_sealed (e : SimulatedEngine) {fingerprint : Bytes} (hf : fingerprint.length = 8)
    (source placeholder : Text) :
    e.accepts (sealed fingerprint source) placeholder = true ↔
      fingerprint = e.fingerprint ∧ Text.units source % 2 ^ 32 = Text.units placeholder := by
  have hlen : Header.fingerprintEnd ≤ (sealed fingerprint source).length := by
    rw [length_sealed source hf, Header.fingerprintEnd]
    omega
  have hseal : ((sealed fingerprint source).drop 12).take 8 = fingerprint := by
    rw [drop_sealed]; exact List.take_left' hf
  unfold accepts
  simp only [Header.lengthOffset, Header.fingerprintOffset, take_sealed_magic, field_sealed, hseal,
    LittleEndian.decode_encode, hlen, decide_true, beq_self_eq_true, Bool.true_and,
    Bool.and_eq_true, beq_iff_eq]
  rfl

theorem evaluate_sealed {fingerprint : Bytes} (hf : fingerprint.length = 8) (source : Text) :
    evaluate (sealed fingerprint source) .script = .ok (scriptValue source) := by
  have hpayload : (sealed fingerprint source).drop Header.fingerprintEnd = Utf8.encode source :=
    drop_sealed_payload _ hf
  simp only [evaluate, hpayload, Utf8.decode_encode]

theorem evaluate_wrapped {fingerprint : Bytes} (hf : fingerprint.length = 8) (body : Text) :
    evaluate (sealed fingerprint (ModuleWrapper.wrap body)) .module = .ok (moduleValue body) := by
  have hpayload : (sealed fingerprint (ModuleWrapper.wrap body)).drop Header.fingerprintEnd =
      Utf8.encode (ModuleWrapper.wrap body) := drop_sealed_payload _ hf
  simp only [evaluate, hpayload, Utf8.decode_encode, ModuleWrapper.unwrap?_wrap]

/-- **A compiled source is evaluated** by every engine of the same build that is given a placeholder
of the declared length. -/
theorem run_compiled {e f : SimulatedEngine} (hbuild : f.build = e.build) {source : Text}
    {data : Bytes} (h : (e.compile source).1 = .ok data) :
    ∃ length, Header.declaredLength data = .ok length ∧
      ∀ filename placeholder invocation, Text.units placeholder = length.toNat →
        (f.run ⟨filename, placeholder, data, invocation⟩).1 =
          (evaluate (sealed e.fingerprint source) invocation).map .completed := by
  have hlength := e.length_fingerprint
  have hsame : e.fingerprint = f.fingerprint := by rw [fingerprint, fingerprint, hbuild]
  rw [eq_cacheOf_of_compile h, cacheOf_eq_sealed]
  refine ⟨_, declaredLength_sealed source hlength, ?_⟩
  intro filename placeholder invocation hplaceholder
  have haccepts : f.accepts (sealed e.fingerprint source) placeholder = true := by
    rw [accepts_sealed f hlength, hplaceholder, UInt32.toNat_ofNat']
    exact ⟨hsame, rfl⟩
  rw [run, if_pos haccepts]

/-- an evaluation gives a value or a report of the script, nothing else -/
theorem evaluate_cases (data : Bytes) (invocation : Invocation) :
    (∃ value, evaluate data invocation = .ok value) ∨
      ∃ report, evaluate data invocation = .error (.script report) := by
  unfold evaluate
  split
  · exact Or.inr ⟨_, rfl⟩
  · split
    · exact Or.inl ⟨_, rfl⟩
    · split
      · exact Or.inl ⟨_, rfl⟩
      · exact Or.inr ⟨_, rfl⟩

/-! ## Fingerprints -/

/-- the lower half of a build number is in the first four bytes, the upper half in the last four -/
theorem fingerprint_eq (e : SimulatedEngine) :
    e.fingerprint = LittleEndian.encode 4 e.build.toNat ++
      LittleEndian.encode 4 (e.build >>> 32).toNat := by
  have hhigh : (e.build >>> 32).toNat = e.build.toNat / 256 ^ 4 := by
    rw [UInt64.toNat_shiftRight, Nat.shiftRight_eq_div_pow]
    rfl
  rw [hhigh]
  exact LittleEndian.encode_add 4 4 e.build.toNat

/-- a seal with the lower half of one fingerprint and the upper half of another is the first one
exactly when the builds agree in their upper halves -/
theorem half_fingerprint_eq_iff (e f : SimulatedEngine) :
    e.fingerprint.take 4 ++ f.fingerprint.drop 4 = e.fingerprint ↔
      f.build >>> 32 = e.build >>> 32 := by
  have hbound : ∀ x : UInt64, (x >>> 32).toNat < 256 ^ 4 := by
    intro x
    have hx := x.toNat_lt
    rw [UInt64.toNat_shiftRight, Nat.shiftRight_eq_div_pow]
    have h32 : (32 : UInt64).toNat % 64 = 32 := rfl
    rw [h32]
    omega
  have htake : e.fingerprint.take 4 = LittleEndian.encode 4 e.build.toNat := by
    rw [fingerprint_eq]; exact List.take_left' (LittleEndian.length_encode 4 _)
  have hdrop : f.fingerprint.drop 4 = LittleEndian.encode 4 (f.build >>> 32).toNat := by
    rw [fingerprint_eq]; exact List.drop_left' (LittleEndian.length_encode 4 _)
  rw [htake, hdrop, fingerprint_eq e, List.append_cancel_left_eq,
    LittleEndian.encode_inj (hbound _) (hbound _), UInt64.toNat_inj]

end SimulatedEngine

end CodeCache
