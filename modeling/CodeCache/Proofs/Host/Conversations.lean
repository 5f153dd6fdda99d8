/-
Conversations with a host: every request gets the reply that belongs to it.

Main result, `conversation_aligned`. Let a host write the frames f0, f1, …, fk and then some bytes in
which no frame is complete, reading a request for each. Once it was launched on f0:
- the i-th call whose request can be sent gets its result from fi and from nothing else, however the
  calls before it came out;
- a call whose request is too large fails and leaves everything as it was, so it is not counted;
- when the frames are used up, every call fails because the output or the input of the host ended.

The invariant is `HostProcess.Serves`: what is unread and what the host will still write are, in
order, the frames that are left. A request that is sent takes the first of them off, whatever it says
(`Serves.request`), since the bytes of a reply are taken before anything in them is looked at. Without
frames the next request finds the end of the output, and all later ones find it again (`Spent`).

A host waits for the next request only when it has written the reply to the last: otherwise each side
waits for the other, and there is no result to speak of. A host that writes ahead is covered.
-/
import CodeCache.Host.Engine
import CodeCache.Proofs.Host.Framing

namespace CodeCache

/-- what a reply frame says: its payload is a result, the report of an error, or nothing known -/
def Frame.body (f : Frame) : Except EngineError Bytes :=
  match Status.ofTag f.tag with
  | .error e => .error e
  | .ok .ok => .ok f.payload
  | .ok .error => .error (.script (Utf8.decodeLossy f.payload))

/-- the error of an output or an input that has ended; nothing in it comes from a reply -/
def EngineError.IsEnd (e : EngineError) : Prop :=
  e = .protocol .closedOutput ∨ e = .io .endedEarly ∨ e = .io .brokenPipe

/-! ## Hosts that answer with given frames -/

namespace HostProcess

/-- the bytes of the next `n` replies behind what is unread -/
def writtenBy (p : HostProcess) (n : Nat) : Bytes :=
  p.output ++ (p.replies.take n).flatMap Reply.bytes

/-- the process will answer with these frames, and then there is only the tail -/
structure Serves (p : HostProcess) (frames : List Frame) (tail : Bytes) : Prop where
  /-- what is unread and what is still to be written -/
  stream : p.output ++ p.replies.flatMap Reply.bytes = Frame.bytesAll frames ++ tail
  fits : ∀ f ∈ frames, f.Fits
  /-- no frame is complete in the tail -/
  incomplete : ∃ e, Frame.read tail = .error e
  /-- it reads, no reply makes it stop, and it has one for every frame -/
  reads : p.reads = true
  stays : ∀ reply ∈ p.replies, reply.closes = false
  lasts : frames.length ≤ p.replies.length
  /-- before it reads another request, it has written the frame for the last -/
  prompt : ∀ n < frames.length,
    Frame.sizeAll (frames.take (n + 1)) ≤ (p.writtenBy (n + 1)).length
  /-- the end of its output has not been found -/
  unended : p.ended = false

/-- the end of the output has been found -/
structure Spent (p : HostProcess) : Prop where
  ended : p.ended = true
  empty : p.output = []

end HostProcess

/-! ## One request -/

namespace HostEngine

open HostProcess

variable {op : Operation} {payload : Bytes} {p : HostProcess}

theorem request_of_not_fits (h : ¬(⟨op.tag, payload⟩ : Frame).Fits) :
    request op payload p = (.error (.protocol (.oversizedPayload payload.length)), p, []) := by
  rw [request, Frame.encode_of_not_fits h]

theorem request_of_closed (h : (⟨op.tag, payload⟩ : Frame).Fits) (hreads : p.reads = false) :
    request op payload p = (.error (.io .brokenPipe), p, []) := by
  rw [request, Frame.encode_of_fits h]
  simp only [hreads, Bool.not_false, if_true]

theorem request_of_error (h : (⟨op.tag, payload⟩ : Frame).Fits) (hreads : p.reads = true)
    {e : EngineError} (hread : Frame.read p.answer.output = .error e) :
    request op payload p = (.error e, { p.answer with output := [], ended := true },
      [.request op.tag payload]) := by
  rw [request, Frame.encode_of_fits h]
  simp only [hreads, hread, Bool.not_true, Bool.false_eq_true, if_false]

theorem ask_eq (op : Operation) (payload : Bytes) (h : HostEngine) :
    h.ask op payload =
      ((request op payload h.process).1,
        { h with
          process := (request op payload h.process).2.1
          seen := h.seen ++ (request op payload h.process).2.2 }) := by
  unfold ask
  generalize request op payload h.process = answer
  rfl

theorem run_eq (script : CachedScript) (h : HostEngine) :
    h.run script =
      ((h.ask .run (RunRequest.encode script)).1.bind readOutcome,
        (h.ask .run (RunRequest.encode script)).2) := by
  unfold run
  generalize h.ask .run (RunRequest.encode script) = answer
  rfl

/-- the bytes of the reply are taken, whatever it says -/
theorem request_of_ok (h : (⟨op.tag, payload⟩ : Frame).Fits) (hreads : p.reads = true)
    {f : Frame} {rest : Bytes} (hread : Frame.read p.answer.output = .ok (f, rest)) :
    request op payload p = (f.body, { p.answer with output := rest },
      [.request op.tag payload]) := by
  rw [request, Frame.encode_of_fits h]
  simp only [hreads, hread, Bool.not_true, Bool.false_eq_true, if_false, Frame.body]
  cases Status.ofTag f.tag with
  | error e => rfl
  | ok status => cases status <;> rfl

end HostEngine

namespace HostProcess

variable {op : Operation} {payload : Bytes} {p : HostProcess} {f : Frame} {frames : List Frame}
  {tail : Bytes}

/-- the first frame has been written by the next reply, so it is in front of what is unread -/
theorem Serves.first_written {reply : Reply} {replies : List Reply} {output : Bytes}
    {reads ended : Bool}
    (h : (⟨reply :: replies, output, reads, ended⟩ : HostProcess).Serves (f :: frames) tail) :
    f.bytes <+: output ++ reply.bytes := by
  have hwhole : f.bytes <+: output ++ (reply :: replies).flatMap Reply.bytes := by
    rw [h.stream, Frame.bytesAll_cons, List.append_assoc]
    exact List.prefix_append _ _
  have hpart : output ++ reply.bytes <+: output ++ (reply :: replies).flatMap Reply.bytes := by
    rw [List.flatMap_cons, ← List.append_assoc]
    exact List.prefix_append _ _
  have hsize := h.prompt 0 (by simp)
  simp only [Nat.zero_add, List.take_succ_cons, List.take_zero, Frame.sizeAll_cons, writtenBy,
    List.flatMap_cons, List.flatMap_nil, List.append_nil] at hsize
  refine List.prefix_of_prefix_length_le hwhole hpart ?_
  rw [Frame.length_bytes]
  exact (Nat.le_add_right _ _).trans hsize

/-- a request takes the first frame off -/
theorem Serves.request (h : p.Serves (f :: frames) tail)
    (hfits : (⟨op.tag, payload⟩ : Frame).Fits) :
    (HostEngine.request op payload p).1 = f.body ∧
      (HostEngine.request op payload p).2.1.Serves frames tail := by
  obtain ⟨replies, output, reads, ended⟩ := p
  cases replies with
  | nil => exact absurd h.lasts (by simp)
  | cons reply replies =>
    obtain ⟨rest, hrest⟩ := h.first_written
    obtain ⟨hstream, hframes, htail, hreads, hstays, hlasts, hprompt, hended⟩ := h
    simp only at hreads hended
    subst hreads hended
    have hf : f.Fits := hframes f List.mem_cons_self
    have hread : Frame.read (answer ⟨reply :: replies, output, true, false⟩).output =
        .ok (f, rest) := by
      change Frame.read (output ++ reply.bytes) = _
      rw [← hrest, Frame.read_bytes hf]
    rw [HostEngine.request_of_ok hfits rfl hread]
    refine ⟨rfl, ?_⟩
    have hopen : reply.closes = false := hstays reply List.mem_cons_self
    constructor
    · change rest ++ replies.flatMap Reply.bytes = _
      rw [List.flatMap_cons, ← List.append_assoc, ← hrest, Frame.bytesAll_cons, List.append_assoc,
        List.append_assoc] at hstream
      exact List.append_cancel_left hstream
    · exact fun g hg => hframes g (List.mem_cons_of_mem f hg)
    · exact htail
    · change (!reply.closes) = true
      rw [hopen]
      rfl
    · exact fun r hr => hstays r (List.mem_cons_of_mem reply hr)
    · exact Nat.le_of_succ_le_succ hlasts
    · intro n hn
      have hlater := hprompt (n + 1) (Nat.succ_lt_succ hn)
      have hlength := congrArg List.length hrest
      simp only [List.length_append, Frame.length_bytes] at hlength
      simp only [writtenBy, List.take_succ_cons, Frame.sizeAll_cons, List.flatMap_cons,
        List.length_append] at hlater
      change Frame.sizeAll (frames.take (n + 1)) ≤
        (rest ++ (replies.take (n + 1)).flatMap Reply.bytes).length
      rw [List.length_append]
      omega
    · rfl

/-- without frames left, a request finds the end of the output -/
theorem Serves.request_end (h : p.Serves [] tail) (hfits : (⟨op.tag, payload⟩ : Frame).Fits) :
    (∃ e, (HostEngine.request op payload p).1 = .error e ∧ e.IsEnd) ∧
      (HostEngine.request op payload p).2.1.Spent := by
  obtain ⟨replies, output, reads, ended⟩ := p
  obtain ⟨hstream, -, ⟨e, htail⟩, hreads, -, -, -, hended⟩ := h
  simp only [Frame.bytesAll, List.flatMap_nil, List.nil_append] at hstream hreads hended
  subst hreads hended
  have hfront : (answer ⟨replies, output, true, false⟩).output <+: tail := by
    rw [← hstream]
    cases replies with
    | nil => exact List.prefix_append _ _
    | cons reply replies =>
      rw [List.flatMap_cons, ← List.append_assoc]
      exact List.prefix_append _ _
  obtain ⟨e', hread⟩ := Frame.read_of_prefix hfront htail
  rw [HostEngine.request_of_error hfits rfl hread]
  refine ⟨⟨e', rfl, ?_⟩, rfl, rfl⟩
  rcases Frame.read_error_cases hread with he | he
  · exact Or.inl he
  · exact Or.inr (Or.inl he)

/-- the end of the output is found again -/
theorem Spent.request (h : p.Spent) (hfits : (⟨op.tag, payload⟩ : Frame).Fits) :
    (∃ e, (HostEngine.request op payload p).1 = .error e ∧ e.IsEnd) ∧
      (HostEngine.request op payload p).2.1.Spent := by
  cases hreads : p.reads with
  | false =>
    rw [HostEngine.request_of_closed hfits hreads]
    exact ⟨⟨_, rfl, Or.inr (Or.inr rfl)⟩, h⟩
  | true =>
    have houtput : p.answer.output = [] := by
      unfold answer
      cases p.replies with
      | nil => exact h.empty
      | cons reply replies => simp only [h.ended, if_true, h.empty]
    have hread : Frame.read p.answer.output = .error (.protocol .closedOutput) := by
      rw [houtput]
      rfl
    rw [HostEngine.request_of_error hfits hreads hread]
    exact ⟨⟨_, rfl, Or.inl rfl⟩, rfl, rfl⟩

/-- where a host is after `n` requests: `n` frames on, or at the end of its output -/
structure After (p : HostProcess) (n : Nat) (frames : List Frame) (tail : Bytes) : Prop where
  serving : n ≤ frames.length → p.Serves (frames.drop n) tail
  spent : frames.length < n → p.Spent

theorem After.request {n : Nat} (h : p.After n frames tail)
    (hfits : (⟨op.tag, payload⟩ : Frame).Fits) :
    (match frames[n]? with
      | some f => (HostEngine.request op payload p).1 = f.body
      | none => ∃ e, (HostEngine.request op payload p).1 = .error e ∧ e.IsEnd) ∧
      (HostEngine.request op payload p).2.1.After (n + 1) frames tail := by
  rcases Nat.lt_trichotomy n frames.length with hn | hn | hn
  · have hserves := h.serving hn.le
    rw [List.drop_eq_getElem_cons hn] at hserves
    rw [List.getElem?_eq_getElem hn]
    obtain ⟨hbody, hnext⟩ := hserves.request hfits
    exact ⟨hbody, fun _ => hnext, fun hspent => by omega⟩
  · have hserves := h.serving hn.le
    rw [List.drop_eq_nil_of_le hn.ge] at hserves
    rw [List.getElem?_eq_none hn.ge]
    obtain ⟨herror, hspent⟩ := hserves.request_end hfits
    exact ⟨herror, fun hle => by omega, fun _ => hspent⟩
  · rw [List.getElem?_eq_none hn.le]
    obtain ⟨herror, hspent⟩ := (h.spent hn).request hfits
    exact ⟨herror, fun hle => by omega, fun _ => hspent⟩

end HostProcess

/-! ## Calls -/

/-- a call of a host engine -/
inductive HostCall where
  | compile (source : Text)
  | run (script : CachedScript)

/-- what a call gives -/
inductive HostAnswer where
  | cache (result : Except EngineError Bytes)
  | outcome (result : Except EngineError RunOutcome)

namespace HostCall

def operation : HostCall → Operation
  | .compile _ => .compile
  | .run _ => .run

def payload : HostCall → Bytes
  | .compile source => Utf8.encode source
  | .run script => RunRequest.encode script

/-- the request a call sends -/
def request (call : HostCall) : Frame := ⟨call.operation.tag, call.payload⟩

def perform : HostCall → HostEngine → HostAnswer × HostEngine
  | .compile source, h => (.cache (h.compile source).1, (h.compile source).2)
  | .run script, h => (.outcome (h.run script).1, (h.run script).2)

/-- what a call makes of the body of its reply, or of an error in its place -/
def conclude : HostCall → Except EngineError Bytes → HostAnswer
  | .compile _, body => .cache body
  | .run _, body => .outcome (body.bind HostEngine.readOutcome)

/-- the engine after calls -/
def performAll (calls : List HostCall) (h : HostEngine) : HostEngine :=
  calls.foldl (fun h call => (call.perform h).2) h

/-- how many of the calls have a request that can be sent -/
def sendable (calls : List HostCall) : Nat := calls.countP fun call => call.request.Fits

theorem perform_eq (call : HostCall) (h : HostEngine) :
    call.perform h =
      (call.conclude (h.ask call.operation call.payload).1,
        (h.ask call.operation call.payload).2) := by
  cases call with
  | compile source => rfl
  | run script => simp only [perform, HostEngine.run_eq, conclude, operation, payload]

theorem perform_of_not_fits {call : HostCall} (hfits : ¬call.request.Fits) (h : HostEngine) :
    call.perform h =
      (call.conclude (.error (.protocol (.oversizedPayload call.payload.length))), h) := by
  have hrequest : HostEngine.request call.operation call.payload h.process =
      (.error (.protocol (.oversizedPayload call.payload.length)), h.process, []) :=
    HostEngine.request_of_not_fits hfits
  rw [perform_eq, HostEngine.ask_eq, hrequest, List.append_nil]

variable {h : HostEngine} {n : Nat} {frames : List Frame} {tail : Bytes}

/-- one call: one frame on if its request can be sent, and none if not -/
theorem after_perform (hafter : h.process.After n frames tail) (call : HostCall) :
    (call.perform h).2.process.After (n + sendable [call]) frames tail := by
  by_cases hfits : call.request.Fits
  · have hone : sendable [call] = 1 := by simp [sendable, hfits]
    rw [hone, perform_eq, HostEngine.ask_eq]
    exact (hafter.request hfits).2
  · have hnone : sendable [call] = 0 := by simp [sendable, hfits]
    rw [hnone, perform_of_not_fits hfits]
    exact hafter

theorem after_performAll (hafter : h.process.After n frames tail) (calls : List HostCall) :
    (performAll calls h).process.After (n + sendable calls) frames tail := by
  induction calls generalizing h n with
  | nil => exact hafter
  | cons call calls ih =>
    have hcount : n + sendable (call :: calls) = n + sendable [call] + sendable calls := by
      simp only [sendable, List.countP_cons, List.countP_nil]
      omega
    rw [hcount]
    exact ih (after_perform hafter call)

end HostCall

/-! ## Launching -/

namespace HostEngine

variable {m : Machine} {flags : EngineFlags} {explicit directory : Option Text}
  {executable : Text} {here : Route} {program : Program} {h : HostEngine}

/-- a launched engine: its process has answered one request, with its versions -/
theorem launch_spec (hexecutable : m.locateNode explicit = .ok executable)
    (hdirectory : startDirectory m directory = .ok here)
    (hprogram : m.program here executable = .ok program)
    (hlaunch : (launch flags m explicit directory).1 = .ok h) :
    let start := HostProcess.start (repliesOf program.behaviour)
    (request .version [] start).1.bind handshake = .ok (h.version, h.engineVersion) ∧
      h.process = (request .version [] start).2.1 := by
  intro start
  obtain ⟨reply, process, seen, hrequest⟩ :
      ∃ reply process seen, request .version [] start = (reply, process, seen) := ⟨_, _, _, rfl⟩
  simp only [launch, hexecutable, hdirectory, hprogram] at hlaunch
  rw [show request .version [] (.start (repliesOf program.behaviour)) = _ from hrequest] at hlaunch
  rw [hrequest]
  cases hversions : reply.bind handshake with
  | error e =>
    simp only [hversions] at hlaunch
    cases hlaunch
  | ok versions =>
    simp only [hversions] at hlaunch
    obtain rfl := Except.ok.inj hlaunch
    exact ⟨rfl, rfl⟩

/-- **Requests and replies stay aligned.** An engine is launched on a host that serves the frames and
then the tail. The first frame gives the versions. After any calls, a call whose request can be sent
is concluded from the frame whose number is that of the sendable calls before it and one more, or
from an error of the host's end if there is no such frame. A call whose request is too large fails
and leaves the engine, its process included, as it was. -/
theorem conversation_aligned {replies : List Reply} {frames : List Frame} {tail : Bytes}
    (hexecutable : m.locateNode explicit = .ok executable)
    (hdirectory : startDirectory m directory = .ok here)
    (hprogram : m.program here executable = .ok program)
    (hhost : program.behaviour = .host replies)
    (hserves : (HostProcess.start replies).Serves frames tail)
    (hlaunch : (launch flags m explicit directory).1 = .ok h) :
    (∃ first later, frames = first :: later ∧
      first.body.bind handshake = .ok (h.version, h.engineVersion)) ∧
    ∀ (earlier : List HostCall) (call : HostCall),
      let engine := HostCall.performAll earlier h
      if call.request.Fits then
        match frames[HostCall.sendable earlier + 1]? with
        | some f => (call.perform engine).1 = call.conclude f.body
        | none => ∃ e, (call.perform engine).1 = call.conclude (.error e) ∧ e.IsEnd
      else
        call.perform engine =
          (call.conclude (.error (.protocol (.oversizedPayload call.payload.length))), engine) := by
  obtain ⟨hversions, hprocess⟩ := launch_spec hexecutable hdirectory hprogram hlaunch
  rw [hhost] at hversions hprocess
  have hstart : (HostProcess.start replies).After 0 frames tail :=
    ⟨fun _ => hserves, fun hlt => absurd hlt (Nat.not_lt_zero _)⟩
  have hsent : (⟨Operation.version.tag, []⟩ : Frame).Fits := by decide
  obtain ⟨hfirst, hafter⟩ := hstart.request hsent
  change (request .version [] (.start replies)).1.bind handshake = _ at hversions
  constructor
  · cases frames with
    | nil =>
      obtain ⟨e, herror, -⟩ := hfirst
      rw [herror] at hversions
      cases hversions
    | cons first later =>
      rw [show (request .version [] (.start replies)).1 = first.body from hfirst] at hversions
      exact ⟨first, later, rfl, hversions⟩
  · intro earlier call engine
    have hlaunched : h.process.After 1 frames tail := by
      rw [hprocess]
      exact hafter
    have hengine := HostCall.after_performAll hlaunched earlier
    rw [Nat.add_comm] at hengine
    split_ifs with hfits
    · have hsendable : (⟨call.operation.tag, call.payload⟩ : Frame).Fits := hfits
      have hcall := (hengine.request hsendable).1
      rw [HostCall.perform_eq, ask_eq]
      cases hf : frames[HostCall.sendable earlier + 1]? with
      | some f =>
        rw [hf] at hcall
        exact congrArg call.conclude hcall
      | none =>
        rw [hf] at hcall
        obtain ⟨e, herror, hend⟩ := hcall
        exact ⟨e, congrArg call.conclude herror, hend⟩
    · exact HostCall.perform_of_not_fits hfits engine

/-- a result that is the value 7, beside a member whose string is not UTF-8 -/
def valueReply : Bytes :=
  Utf8.encode "\x7b\"note\":\"" ++ [255] ++ Utf8.encode "\",\"rejected\":false,\"value\":7\x7d"

/-- the integer that a run completed with -/
def integer? : Except EngineError RunOutcome → Option Int
  | .ok (.completed (.int n)) => some n
  | _ => none

theorem readOutcome_valueReply : readOutcome valueReply = .ok (.completed (.int 7)) := by
  have hvalue : integer? (readOutcome valueReply) = some 7 := by decide +kernel
  unfold integer? at hvalue
  split at hvalue
  · next n hread => rw [hread, Option.some.inj hvalue]
  · cases hvalue

/-- versions, a cache, a reply of no known kind, a result that is no JSON, and one that is a value -/
def mixedFrames : List Frame :=
  [⟨0, Utf8.encode "\x7b\"node\":\"v22.12.0\",\"v8\":\"12.4\"\x7d"⟩, ⟨0, [1, 2]⟩, ⟨7, []⟩,
    ⟨0, [91]⟩, ⟨0, valueReply⟩]

/-- the second frame begins in the first reply, the third ends in the second, and the fifth begins in
the fourth; the last reply goes on with half a frame -/
def mixedReplies : List Reply :=
  let written := Frame.bytesAll mixedFrames
  [⟨written.take 40, false⟩, ⟨(written.drop 40).take 10, false⟩, ⟨[], false⟩,
    ⟨(written.drop 50).take 10, false⟩, ⟨written.drop 60 ++ [0, 9], false⟩]

/-- a machine with the host as its only file -/
def mixedMachine : Machine :=
  ⟨⟨[(["host"], .file [] true (some ⟨"host", .host mixedReplies⟩))]⟩, [], [], []⟩

theorem serves_mixed : (HostProcess.start mixedReplies).Serves mixedFrames [0, 9] where
  stream := by decide +kernel
  fits := by decide +kernel
  incomplete := ⟨_, rfl⟩
  reads := rfl
  stays := by decide +kernel
  lasts := by decide
  prompt := by decide +kernel
  unended := rfl

theorem launch_mixed :
    (launch .complete mixedMachine (some "/host") none).1.isOk = true := by decide +kernel

/-- the calls before the one that runs into the end of the output -/
def mixedCalls : List HostCall :=
  [.compile "1", .compile "2", .run ⟨"a.bin", "3", [], .script⟩, .run ⟨"a.bin", "4", [], .module⟩]

/-- the cache comes from the second frame; the next two calls fail on what the third and the fourth
say, the one after them has the value of the fifth, and the last one fails because the output ended -/
theorem conversation_aligned_mixed :
    ∃ h, (launch .complete mixedMachine (some "/host") none).1 = .ok h ∧
      (HostCall.perform (.compile "1") h).1 = .cache (.ok [1, 2]) ∧
      (HostCall.perform (.compile "2") (HostCall.performAll (mixedCalls.take 1) h)).1 =
        .cache (.error (.protocol (.invalidStatus 7))) ∧
      (HostCall.perform (.run ⟨"a.bin", "3", [], .script⟩)
        (HostCall.performAll (mixedCalls.take 2) h)).1 =
          .outcome (.error (.protocol .invalidJson)) ∧
      (HostCall.perform (.run ⟨"a.bin", "4", [], .module⟩)
        (HostCall.performAll (mixedCalls.take 3) h)).1 =
          .outcome (.ok (.completed (.int 7))) ∧
      ∃ e, (HostCall.perform (.compile "5") (HostCall.performAll mixedCalls h)).1 =
        .cache (.error e) ∧ e.IsEnd := by
  have hlaunched := launch_mixed
  cases hlaunch : (launch .complete mixedMachine (some "/host") none).1 with
  | error e =>
    rw [hlaunch] at hlaunched
    cases hlaunched
  | ok h =>
    have hexecutable : mixedMachine.locateNode (some "/host") = .ok "/host" := by decide +kernel
    have hdirectory : startDirectory mixedMachine none = .ok [] := rfl
    have hprogram : mixedMachine.program [] "/host" = .ok ⟨"host", .host mixedReplies⟩ := by
      decide +kernel
    have haligned := (conversation_aligned hexecutable hdirectory hprogram rfl serves_mixed hlaunch).2
    have hsecond := haligned (mixedCalls.take 0) (.compile "1")
    have hthird := haligned (mixedCalls.take 1) (.compile "2")
    have hfourth := haligned (mixedCalls.take 2) (.run ⟨"a.bin", "3", [], .script⟩)
    have hfifth := haligned (mixedCalls.take 3) (.run ⟨"a.bin", "4", [], .module⟩)
    have hlast := haligned mixedCalls (.compile "5")
    rw [if_pos (by decide +kernel)] at hsecond hthird hfourth hfifth hlast
    have hframe : mixedFrames[HostCall.sendable (mixedCalls.take 3) + 1]? = some ⟨0, valueReply⟩ := by
      decide +kernel
    have hbody : (⟨0, valueReply⟩ : Frame).body = .ok valueReply := rfl
    simp only [hframe, hbody, HostCall.conclude, Except.bind, readOutcome_valueReply] at hfifth
    exact ⟨h, rfl, hsecond, hthird, hfourth, hfifth, hlast⟩

end HostEngine

end CodeCache
