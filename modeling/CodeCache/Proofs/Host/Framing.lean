/-
Framing, both ways: what is read is what was written, up to the byte at which the stream stops.

Main result, `codec_exact`.
- Frames that were written are read back in order, and then the output is closed.
- If the stream is cut anywhere, the frames that are complete before the cut are read. The error
  after them says where the cut is: at the end of a frame or in a header, the output is closed;
  in a payload, the data ended early.
- Whatever a stream holds, the frames read from it have exactly the bytes they were read from, and
  reading ends.
- A payload whose length does not fit into four bytes is refused before anything is written.

One frame is settled first, for any bytes behind it (`read_bytes`, `bytes_of_read`, `read_cut`);
streams follow by induction on the list of frames, or on the length of the stream where the frames
are not given.
-/
import Mathlib.Tactic
import CodeCache.Host.Frame
import CodeCache.Proofs.Words

namespace CodeCache.Frame

/-! ## The bytes of a frame -/

/-- the length of the payload can be written in four bytes -/
def Fits (f : Frame) : Prop := f.payload.length < UInt32.size

instance (f : Frame) : Decidable f.Fits := by
  unfold Fits; infer_instance

/-- header and payload -/
def bytes (f : Frame) : Bytes := f.tag :: LittleEndian.encode 4 f.payload.length ++ f.payload

/-- how many bytes a frame takes -/
def size (f : Frame) : Nat := headerSize + f.payload.length

/-- the bytes of frames, one after another -/
def bytesAll (frames : List Frame) : Bytes := frames.flatMap bytes

/-- how many bytes frames take -/
def sizeAll (frames : List Frame) : Nat := (frames.map size).sum

theorem length_bytes (f : Frame) : f.bytes.length = f.size := by
  simp only [bytes, size, headerSize, List.cons_append, List.length_cons, List.length_append,
    LittleEndian.length_encode]
  omega

theorem length_bytesAll (frames : List Frame) : (bytesAll frames).length = sizeAll frames := by
  simp only [bytesAll, sizeAll, List.length_flatMap, length_bytes]

theorem bytesAll_cons (f : Frame) (frames : List Frame) :
    bytesAll (f :: frames) = f.bytes ++ bytesAll frames := rfl

theorem sizeAll_cons (f : Frame) (frames : List Frame) :
    sizeAll (f :: frames) = f.size + sizeAll frames := by
  simp only [sizeAll, List.map_cons, List.sum_cons]

theorem encode_of_fits {f : Frame} (h : f.Fits) : f.encode = .ok f.bytes := if_pos h

theorem encode_of_not_fits {f : Frame} (h : ¬f.Fits) :
    f.encode = .error (.protocol (.oversizedPayload f.payload.length)) := if_neg h

theorem write_of_fits {f : Frame} (h : f.Fits) (output : Bytes) :
    f.write output = (.ok (), output ++ f.bytes) := by
  rw [write, encode_of_fits h]

theorem write_of_not_fits {f : Frame} (h : ¬f.Fits) (output : Bytes) :
    f.write output = (.error (.protocol (.oversizedPayload f.payload.length)), output) := by
  rw [write, encode_of_not_fits h]

theorem writeAll_of_fits {frames : List Frame} (h : ∀ f ∈ frames, f.Fits) (output : Bytes) :
    writeAll frames output = (.ok (), output ++ bytesAll frames) := by
  induction frames generalizing output with
  | nil => simp [writeAll, bytesAll]
  | cons f frames ih =>
    have hf : f.Fits := h f List.mem_cons_self
    have hframes : ∀ g ∈ frames, g.Fits := fun g hg => h g (List.mem_cons_of_mem f hg)
    rw [writeAll, write_of_fits hf]
    simp only [ih hframes, bytesAll_cons, List.append_assoc]

/-! ## Reading one frame -/

/-- a read that finds a tag and a whole word -/
theorem read_word {word : Bytes} (h : word.length = 4) (tag : UInt8) (stream : Bytes) :
    read (tag :: word ++ stream) =
      if LittleEndian.decode word ≤ stream.length then
        .ok (⟨tag, stream.take (LittleEndian.decode word)⟩, stream.drop (LittleEndian.decode word))
      else .error (.io .endedEarly) := by
  match word, h with
  | [_, _, _, _], _ => rfl

/-- a read that finds the header of a payload of `n` bytes -/
theorem read_header {n : Nat} (hn : n < UInt32.size) (tag : UInt8) (stream : Bytes) :
    read (tag :: LittleEndian.encode 4 n ++ stream) =
      if n ≤ stream.length then .ok (⟨tag, stream.take n⟩, stream.drop n)
      else .error (.io .endedEarly) := by
  have hpow : UInt32.size = 256 ^ 4 := rfl
  have hdecode : LittleEndian.decode (LittleEndian.encode 4 n) = n := by
    rw [LittleEndian.decode_encode, Nat.mod_eq_of_lt (hpow ▸ hn)]
  rw [read_word (LittleEndian.length_encode 4 n), hdecode]

theorem read_short {stream : Bytes} (h : stream.length < headerSize) :
    read stream = .error (.protocol .closedOutput) := by
  match stream, h with
  | [], _ => rfl
  | [_], _ => rfl
  | [_, _], _ => rfl
  | [_, _, _], _ => rfl
  | [_, _, _, _], _ => rfl

/-- a frame in front of a stream is read, and the stream is left -/
theorem read_bytes {f : Frame} (h : f.Fits) (rest : Bytes) :
    read (f.bytes ++ rest) = .ok (f, rest) := by
  rw [bytes, List.append_assoc, read_header h, if_pos (by simp)]
  simp

/-- a stream is too short for a header, or starts with a tag and a word -/
theorem short_or_word (stream : Bytes) :
    stream.length < headerSize ∨
      ∃ tag word behind, word.length = 4 ∧ stream = tag :: word ++ behind := by
  match stream with
  | tag :: a :: b :: c :: d :: behind => exact Or.inr ⟨tag, [a, b, c, d], behind, rfl, rfl⟩
  | [] | [_] | [_, _] | [_, _, _] | [_, _, _, _] =>
    left
    simp only [List.length_cons, List.length_nil, headerSize]
    omega

/-- what is read is a frame in front of what is left -/
theorem bytes_of_read {f : Frame} {stream rest : Bytes} (h : read stream = .ok (f, rest)) :
    f.Fits ∧ stream = f.bytes ++ rest := by
  rcases short_or_word stream with hshort | ⟨tag, word, behind, hword, rfl⟩
  · rw [read_short hshort] at h
    cases h
  · rw [read_word hword] at h
    split_ifs at h with hsize
    obtain ⟨rfl, rfl⟩ := Prod.mk.inj (Except.ok.inj h)
    have hlt : LittleEndian.decode word < 256 ^ word.length := LittleEndian.decode_lt word
    have hencode : LittleEndian.encode 4 (LittleEndian.decode word) = word := by
      rw [← hword, LittleEndian.encode_decode]
    have hlength : (behind.take (LittleEndian.decode word)).length = LittleEndian.decode word :=
      List.length_take_of_le hsize
    rw [hword] at hlt
    refine ⟨hlength.trans_lt hlt, ?_⟩
    simp only [bytes, hlength, hencode, List.append_assoc, List.take_append_drop]

/-- reading fails only where the output stops -/
theorem read_error_cases {stream : Bytes} {e : EngineError} (h : read stream = .error e) :
    e = .protocol .closedOutput ∨ e = .io .endedEarly := by
  rcases short_or_word stream with hshort | ⟨tag, word, behind, hword, rfl⟩
  · rw [read_short hshort] at h
    exact Or.inl (Except.error.inj h).symm
  · rw [read_word hword] at h
    split_ifs at h
    exact Or.inr (Except.error.inj h).symm

/-- a frame cut off inside: the header decides which error it is -/
theorem read_cut {f : Frame} (h : f.Fits) {n : Nat} (hn : n < f.size) :
    read (f.bytes.take n) =
      .error (if n < headerSize then .protocol .closedOutput else .io .endedEarly) := by
  split_ifs with hheader
  · exact read_short ((List.length_take_le n _).trans_lt hheader)
  · have hhead : (f.tag :: LittleEndian.encode 4 f.payload.length).length = headerSize := by
      rw [List.length_cons, LittleEndian.length_encode]
      rfl
    have hcut : f.bytes.take n =
        f.tag :: LittleEndian.encode 4 f.payload.length ++ f.payload.take (n - headerSize) := by
      rw [bytes, List.take_append, hhead, List.take_of_length_le (by omega)]
    have hshort : ¬f.payload.length ≤ (f.payload.take (n - headerSize)).length := by
      simp only [size] at hn
      simp only [List.length_take]
      omega
    rw [hcut, read_header h, if_neg hshort]

/-- what is missing from a stream is missing from what it starts with -/
theorem read_of_prefix {front stream : Bytes} {e : EngineError} (hfront : front <+: stream)
    (h : read stream = .error e) : ∃ e', read front = .error e' := by
  obtain ⟨back, rfl⟩ := hfront
  cases hread : read front with
  | error e' => exact ⟨e', rfl⟩
  | ok found =>
    obtain ⟨f, rest⟩ := found
    obtain ⟨hf, rfl⟩ := bytes_of_read hread
    rw [List.append_assoc, read_bytes hf] at h
    cases h

/-! ## Reading a stream -/

theorem length_of_read {f : Frame} {stream rest : Bytes} (h : read stream = .ok (f, rest)) :
    headerSize + rest.length ≤ stream.length := by
  obtain ⟨-, rfl⟩ := bytes_of_read h
  rw [List.length_append, length_bytes, size]
  omega

/-- a bound above the length of the stream is not felt -/
theorem readWithin_eq {m n : Nat} {stream : Bytes} (hm : stream.length < m)
    (hn : stream.length < n) : readWithin m stream = readWithin n stream := by
  induction m generalizing n stream with
  | zero => omega
  | succ m ih =>
    cases n with
    | zero => omega
    | succ n =>
      simp only [readWithin]
      cases hread : read stream with
      | error e => rfl
      | ok found =>
        obtain ⟨f, rest⟩ := found
        have hlength := length_of_read hread
        simp only [headerSize] at hlength
        have hrest : readWithin m rest = readWithin n rest := ih (by omega) (by omega)
        simp only [hrest]

theorem readAll_of_error {stream : Bytes} {e : EngineError} (h : read stream = .error e) :
    readAll stream = ([], some e) := by
  simp only [readAll, readWithin, h]

theorem readAll_of_ok {f : Frame} {stream rest : Bytes} (h : read stream = .ok (f, rest)) :
    readAll stream = (f :: (readAll rest).1, (readAll rest).2) := by
  have hlength := length_of_read h
  simp only [headerSize] at hlength
  have hbound : readWithin stream.length rest = readAll rest :=
    readWithin_eq (by omega) (by omega)
  rw [readAll, readWithin, h]
  simp only [hbound]

/-- reading all of a stream is reading a frame and then all of what is left -/
theorem readAll_eq (stream : Bytes) :
    readAll stream =
      match read stream with
      | .error e => ([], some e)
      | .ok (f, rest) => (f :: (readAll rest).1, (readAll rest).2) := by
  cases h : read stream with
  | error e => exact readAll_of_error h
  | ok found => exact readAll_of_ok h

theorem readAll_bytesAll {frames : List Frame} (h : ∀ f ∈ frames, f.Fits) :
    readAll (bytesAll frames) = (frames, some (.protocol .closedOutput)) := by
  induction frames with
  | nil => rfl
  | cons f frames ih =>
    have hf : f.Fits := h f List.mem_cons_self
    have hframes : ∀ g ∈ frames, g.Fits := fun g hg => h g (List.mem_cons_of_mem f hg)
    rw [bytesAll_cons, readAll_of_ok (read_bytes hf _), ih hframes]

/-- a cut behind `n` bytes of frames falls between or into them as the two lists say -/
structure CutAt (n : Nat) (complete later : List Frame) : Prop where
  /-- these end before the cut -/
  before : sizeAll complete ≤ n
  /-- the next one, if there is one, does not -/
  inside : ∀ f ∈ later.head?, n < sizeAll complete + f.size

/-- the error that reading ends with behind complete frames, when the stream is cut after `n` bytes:
at the end of a frame or in a header the output is closed, and in a payload data is missing -/
def cutError (n : Nat) (complete : List Frame) : EngineError :=
  if n < sizeAll complete + headerSize then .protocol .closedOutput else .io .endedEarly

/-- the cut goes through the frames one by one: a frame that fits in front of it is read whole, and
the first that does not is the one it falls into -/
theorem readAll_take {frames : List Frame} (h : ∀ f ∈ frames, f.Fits) {n : Nat}
    (hn : n ≤ sizeAll frames) :
    ∃ complete later, frames = complete ++ later ∧ CutAt n complete later ∧
      readAll ((bytesAll frames).take n) = (complete, some (cutError n complete)) := by
  induction frames generalizing n with
  | nil =>
    obtain rfl : n = 0 := Nat.le_zero.1 hn
    exact ⟨[], [], rfl, ⟨le_rfl, by simp⟩, rfl⟩
  | cons f frames ih =>
    have hf : f.Fits := h f List.mem_cons_self
    have hframes : ∀ g ∈ frames, g.Fits := fun g hg => h g (List.mem_cons_of_mem f hg)
    rw [sizeAll_cons] at hn
    rw [bytesAll_cons, List.take_append, length_bytes]
    by_cases hsize : f.size ≤ n
    · obtain ⟨complete, later, rfl, hcut, hread⟩ := ih hframes (n := n - f.size) (by omega)
      refine ⟨f :: complete, later, rfl, ⟨?_, ?_⟩, ?_⟩
      · have hbefore := hcut.before
        rw [sizeAll_cons]
        omega
      · intro g hg
        have hinside := hcut.inside g hg
        rw [sizeAll_cons]
        omega
      · have herror : cutError (n - f.size) complete = cutError n (f :: complete) := by
          unfold cutError
          rw [sizeAll_cons]
          congr 1
          simp only [eq_iff_iff]
          omega
        rw [List.take_of_length_le (by rw [length_bytes]; exact hsize),
          readAll_of_ok (read_bytes hf _), hread, herror]
    · have hzero : n - f.size = 0 := by omega
      refine ⟨[], f :: frames, rfl, ⟨Nat.zero_le n, ?_⟩, ?_⟩
      · intro g hg
        obtain rfl : f = g := Option.some.inj hg
        simp only [sizeAll, List.map_nil, List.sum_nil]
        omega
      · rw [hzero, List.take_zero, List.append_nil, readAll_of_error (read_cut hf (by omega))]
        simp only [cutError, sizeAll, List.map_nil, List.sum_nil, Nat.zero_add]

/-- a stream is the bytes of the frames read from it, in front of bytes in which no frame is
complete -/
theorem readAll_split (stream : Bytes) :
    ∃ rest e, stream = bytesAll (readAll stream).1 ++ rest ∧
      (∀ f ∈ (readAll stream).1, f.Fits) ∧ read rest = .error e ∧ (readAll stream).2 = some e := by
  induction hlength : stream.length using Nat.strong_induction_on generalizing stream with
  | _ length ih =>
    cases hread : read stream with
    | error e =>
      rw [readAll_of_error hread]
      exact ⟨stream, e, rfl, by simp, hread, rfl⟩
    | ok found =>
      obtain ⟨f, behind⟩ := found
      have hshorter := length_of_read hread
      simp only [headerSize] at hshorter
      obtain ⟨rest, e, hsplit, hfits, hrest, hend⟩ := ih behind.length (by omega) behind rfl
      obtain ⟨hf, hstream⟩ := bytes_of_read hread
      rw [readAll_of_ok hread]
      refine ⟨rest, e, ?_, ?_, hrest, hend⟩
      · rw [bytesAll_cons, List.append_assoc, ← hsplit, hstream]
      · intro g hg
        rcases List.mem_cons.1 hg with rfl | hg
        · exact hf
        · exact hfits g hg

theorem headerSize_mul_length_le (frames : List Frame) :
    headerSize * frames.length ≤ sizeAll frames := by
  induction frames with
  | nil => exact Nat.le_refl 0
  | cons f frames ih =>
    rw [sizeAll_cons, size, List.length_cons, Nat.mul_succ]
    omega

/-! ## The codec -/

/-- **Framing loses and adds nothing.** Frames that fit are written one behind the other and read
back, up to a closed output. A cut at any position leaves the frames that are complete before it,
and the error is that of a closed output at the end of a frame or in a header, and that of missing
data in a payload. Reading a stream is reading frame after frame; it ends for every stream, and
writing what was read gives the bytes it was read from. A payload of `2 ^ 32` bytes or more is
refused, and nothing is written. -/
theorem codec_exact :
    (∀ frames : List Frame, (∀ f ∈ frames, f.payload.length < 2 ^ 32) →
      ∃ written, writeAll frames [] = (.ok (), written) ∧
        readAll written = (frames, some (.protocol .closedOutput)) ∧
        ∀ n ≤ written.length, ∃ complete later, frames = complete ++ later ∧
          CutAt n complete later ∧
          readAll (written.take n) = (complete, some (cutError n complete))) ∧
    (∀ stream, readAll stream =
      match read stream with
      | .error e => ([], some e)
      | .ok (f, rest) => (f :: (readAll rest).1, (readAll rest).2)) ∧
    (∀ stream f rest, read stream = .ok (f, rest) →
      ∃ written, f.write [] = (.ok (), written) ∧ stream = written ++ rest) ∧
    (∀ stream, ∃ written rest e, stream = written ++ rest ∧
      writeAll (readAll stream).1 [] = (.ok (), written) ∧
      headerSize * (readAll stream).1.length ≤ stream.length ∧
      read rest = .error e ∧ (readAll stream).2 = some e ∧
      (e = .protocol .closedOutput ∨ e = .io .endedEarly)) ∧
    ∀ f : Frame, 2 ^ 32 ≤ f.payload.length → ∀ output,
      f.write output = (.error (.protocol (.oversizedPayload f.payload.length)), output) := by
  refine ⟨?_, ?_, ?_, ?_, ?_⟩
  · intro frames hfits
    refine ⟨bytesAll frames, writeAll_of_fits hfits [], readAll_bytesAll hfits, ?_⟩
    intro n hn
    rw [length_bytesAll] at hn
    exact readAll_take hfits hn
  · intro stream
    exact readAll_eq stream
  · intro stream f rest hread
    obtain ⟨hf, hstream⟩ := bytes_of_read hread
    exact ⟨f.bytes, write_of_fits hf [], hstream⟩
  · intro stream
    obtain ⟨rest, e, hsplit, hfits, hrest, hend⟩ := readAll_split stream
    have hbound : headerSize * (readAll stream).1.length ≤ stream.length := by
      have hlength := congrArg List.length hsplit
      rw [List.length_append, length_bytesAll] at hlength
      exact (headerSize_mul_length_le _).trans (by omega)
    exact ⟨bytesAll (readAll stream).1, rest, e, hsplit, writeAll_of_fits hfits [], hbound, hrest,
      hend, read_error_cases hrest⟩
  · intro f hsize output
    exact write_of_not_fits (Nat.not_lt.2 hsize) output

/-- a payload of three bytes, one of none and one of two -/
def sampleFrames : List Frame := [⟨1, [49, 43, 49]⟩, ⟨0, []⟩, ⟨7, [9, 9]⟩]

/-- the frames are read back; cut right behind the last header, the first two are, and the data
ended early; and a frame of `2 ^ 32` bytes leaves the output as it was -/
theorem codec_exact_sample :
    readAll [1, 3, 0, 0, 0, 49, 43, 49, 0, 0, 0, 0, 0, 7, 2, 0, 0, 0, 9, 9] =
      (sampleFrames, some (.protocol .closedOutput)) ∧
    (∃ complete later, sampleFrames = complete ++ later ∧ CutAt 18 complete later ∧
      readAll [1, 3, 0, 0, 0, 49, 43, 49, 0, 0, 0, 0, 0, 7, 2, 0, 0, 0] =
        (complete, some (cutError 18 complete))) ∧
    (∃ written, write ⟨0, []⟩ [] = (.ok (), written) ∧ [0, 0, 0, 0, 0, 7] = written ++ [7]) ∧
    write ⟨2, List.replicate (2 ^ 32) 0⟩ [5] = (.error (.protocol (.oversizedPayload
      (List.replicate (2 ^ 32) (0 : UInt8)).length)), [5]) := by
  obtain ⟨hwritten, -, hread, -, hoversized⟩ := codec_exact
  obtain ⟨written, hwrite, hall, hcut⟩ := hwritten sampleFrames (by decide)
  obtain rfl : [1, 3, 0, 0, 0, 49, 43, 49, 0, 0, 0, 0, 0, 7, 2, 0, 0, 0, 9, 9] = written :=
    congrArg Prod.snd hwrite
  exact ⟨hall, hcut 18 (by decide), hread [0, 0, 0, 0, 0, 7] ⟨0, []⟩ [7] rfl,
    hoversized ⟨2, List.replicate (2 ^ 32) 0⟩ (Nat.le_of_eq List.length_replicate.symm) [5]⟩

end CodeCache.Frame
