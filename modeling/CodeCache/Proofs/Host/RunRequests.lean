/-
Run requests, as the host that receives them takes them apart.

Main result, `encode_decodable`. A payload keeps only the low four bytes of its header's length, so
a payload by itself may not say where its header ends. A frame holds no payload of 2 ^ 32 bytes or
more, and a payload is longer than its header: whatever a frame accepts, the length in front of it
is the header's own, the header is the JSON object of the script's three texts, and the rest is the
cache. A header that is too long for its length field is refused, and nothing is written.

The header is the one-line text of an object (`headerText_eq`), so reading it back is a case of
reading JSON values back, whatever characters the file name and the placeholder have.
-/
import Mathlib.Tactic
import CodeCache.Cache.Placeholder
import CodeCache.Host.Request
import CodeCache.Proofs.Host.Framing
import CodeCache.Proofs.Json.ReadBack
import CodeCache.Proofs.Text.Utf8

namespace CodeCache.RunRequest

/-! ## The header -/

/-- the members of the header, in the order in which they are written -/
def members (script : CachedScript) : List (Text × Json) :=
  [("filename", .str script.filename), ("placeholder", .str script.placeholder),
    ("invocation", .str (invocationName script.invocation))]

theorem headerText_eq (script : CachedScript) :
    headerText script = Json.render (.obj (members script)) := by
  have hfilename : "\x7b\"filename\":".toList =
      '\x7b' :: (Json.renderString "filename" ++ [':']) := rfl
  have hplaceholder : ",\"placeholder\":".toList =
      ',' :: (Json.renderString "placeholder" ++ [':']) := rfl
  have hinvocation : ",\"invocation\":".toList =
      ',' :: (Json.renderString "invocation" ++ [':']) := rfl
  unfold headerText
  simp only [hfilename, hplaceholder, hinvocation]
  simp only [members, Json.render, Json.renderMembers, List.append_assoc, List.cons_append,
    List.nil_append]

/-- the header as a value: the script's three texts at the keys of an object, and nothing else -/
def headerValue (script : CachedScript) : Json :=
  .obj [("filename", .str script.filename),
    ("invocation", .str (if script.invocation = .module then "module" else "script")),
    ("placeholder", .str script.placeholder)]

theorem parse?_headerText (script : CachedScript) :
    Json.parse? (headerText script) = some (headerValue script) := by
  have hexact : Json.Exact Json.deepest (.obj (members script)) := by
    refine .obj fun m hm => ?_
    simp only [members, List.mem_cons, List.not_mem_nil, or_false] at hm
    rcases hm with rfl | rfl | rfl <;> exact .str _
  have hname : invocationName script.invocation =
      if script.invocation = .module then "module".toList else "script".toList := by
    cases script.invocation <;> rfl
  rw [headerText_eq, hexact.parse?_render, headerValue, ← hname]
  rfl

/-! ## Sizes -/

/-- how many bytes the header takes -/
def headerSize (script : CachedScript) : Nat := (Utf8.encode (headerText script)).length

theorem length_encode (script : CachedScript) :
    (encode script).length = 4 + headerSize script + script.data.length := by
  simp [encode, headerSize, LittleEndian.length_encode]
  omega

theorem take_encode (script : CachedScript) :
    (encode script).take 4 = LittleEndian.encode 4 (headerSize script) := by
  rw [encode, List.append_assoc, List.take_left' (LittleEndian.length_encode 4 _)]
  rfl

theorem drop_encode (script : CachedScript) :
    (encode script).drop 4 = Utf8.encode (headerText script) ++ script.data := by
  rw [encode, List.append_assoc, List.drop_left' (LittleEndian.length_encode 4 _)]

/-- whoever knows the header's size finds the header -/
theorem take_drop_encode (script : CachedScript) :
    ((encode script).drop 4).take (headerSize script) = Utf8.encode (headerText script) := by
  rw [drop_encode, headerSize, List.take_left' rfl]

/-- and the cache behind it -/
theorem drop_drop_encode (script : CachedScript) :
    ((encode script).drop 4).drop (headerSize script) = script.data := by
  rw [drop_encode, headerSize, List.drop_left' rfl]

/-- the length field says how long the header is if the payload fits into a frame -/
theorem decode_take_encode {script : CachedScript} (h : (encode script).length < UInt32.size) :
    LittleEndian.decode ((encode script).take 4) = headerSize script := by
  have hpow : UInt32.size = 256 ^ 4 := rfl
  have hlt : headerSize script < 256 ^ 4 := by
    rw [length_encode] at h
    omega
  rw [take_encode, LittleEndian.decode_encode, Nat.mod_eq_of_lt hlt]

/-- every character of the placeholder takes at least one byte of the header -/
theorem placeholder_le_headerSize (script : CachedScript) :
    script.placeholder.length + 2 ≤ headerSize script := by
  have hpart : (Json.renderString script.placeholder).length ≤ (headerText script).length := by
    unfold headerText
    exact ((((List.sublist_append_right _ _).trans (List.sublist_append_left _ _)).trans
      (List.sublist_append_left _ _)).trans (List.sublist_append_left _ _)).length_le
  calc script.placeholder.length + 2
      ≤ (Json.renderString script.placeholder).length := Json.le_length_renderString _
    _ ≤ (headerText script).length := hpart
    _ ≤ headerSize script := Utf8.length_le_encode _

/-! ## Requests that are sent, and requests that are not -/

/-- **A run request that a frame accepts can be taken apart into its script; one whose header is too
long for the length field is refused, and nothing is written.** -/
theorem encode_decodable (script : CachedScript) (output : Bytes) :
    (∀ output', Frame.write ⟨Operation.run.tag, encode script⟩ output = (.ok (), output') →
      ∃ n, LittleEndian.decode ((encode script).take 4) = n ∧
        n = (Utf8.encode (headerText script)).length ∧
        (Utf8.decode? (((encode script).drop 4).take n)).bind Json.parse? =
          some (headerValue script) ∧
        (encode script).drop (4 + n) = script.data ∧
        split (encode script) = (Utf8.encode (headerText script), script.data)) ∧
    (UInt32.size ≤ (Utf8.encode (headerText script)).length →
      Frame.write ⟨Operation.run.tag, encode script⟩ output =
        (.error (.protocol (.oversizedPayload (encode script).length)), output)) := by
  constructor
  · intro output' hwrite
    have hfits : Frame.Fits ⟨Operation.run.tag, encode script⟩ := by
      by_contra hnot
      rw [Frame.write_of_not_fits hnot] at hwrite
      cases hwrite
    have hsize : LittleEndian.decode ((encode script).take 4) = headerSize script :=
      decode_take_encode hfits
    refine ⟨headerSize script, hsize, rfl, ?_, ?_, ?_⟩
    · rw [take_drop_encode, Utf8.decode?, Utf8.decode_encode]
      exact parse?_headerText script
    · rw [← List.drop_drop, drop_drop_encode]
    · rw [split, hsize, take_drop_encode, drop_drop_encode]
  · intro hlong
    apply Frame.write_of_not_fits
    intro hfits
    -- the payload is longer than its header
    have hlt : (encode script).length < UInt32.size := hfits
    rw [length_encode, headerSize] at hlt
    omega

/-- a module that is sent, and the placeholder of the longest source, which is not -/
theorem encode_decodable_extremes :
    let sample : CachedScript := ⟨"a \"b\"\n.js", Placeholder.source 3, [1, 2, 3], .module⟩
    let longest : CachedScript := ⟨[], Placeholder.source 0xFFFFFFFF, [], .script⟩
    (∃ n, LittleEndian.decode ((encode sample).take 4) = n ∧
      n = (Utf8.encode (headerText sample)).length ∧
      (Utf8.decode? (((encode sample).drop 4).take n)).bind Json.parse? =
        some (headerValue sample) ∧
      (encode sample).drop (4 + n) = [1, 2, 3] ∧
      split (encode sample) = (Utf8.encode (headerText sample), [1, 2, 3])) ∧
    Frame.write ⟨Operation.run.tag, encode longest⟩ [0] =
      (.error (.protocol (.oversizedPayload (encode longest).length)), [0]) := by
  intro sample longest
  have hfits : Frame.Fits ⟨Operation.run.tag, encode sample⟩ := by decide +kernel
  have hlong : UInt32.size ≤ (Utf8.encode (headerText longest)).length := by
    have hplaceholder : (Placeholder.source 0xFFFFFFFF).length = 0xFFFFFFFF := by
      rw [Placeholder.source, if_neg (by decide), List.length_append, List.length_cons,
        List.length_replicate]
      rfl
    have hle : longest.placeholder.length + 2 ≤ headerSize longest := placeholder_le_headerSize longest
    have hsize : UInt32.size = 0xFFFFFFFF + 1 := rfl
    rw [show longest.placeholder.length = 0xFFFFFFFF from hplaceholder, headerSize] at hle
    omega
  exact ⟨(encode_decodable sample []).1 _ (Frame.write_of_fits hfits []),
    (encode_decodable longest [0]).2 hlong⟩

end CodeCache.RunRequest
