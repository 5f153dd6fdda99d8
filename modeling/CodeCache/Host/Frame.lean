/-
Frames, the unit of conversation with an engine host: a tag byte, the length of the payload in four
bytes, least significant first, and the payload.
-/
import CodeCache.Bytes
import CodeCache.Engine.Error

namespace CodeCache

structure Frame where
  tag : UInt8
  payload : Bytes
deriving DecidableEq, Repr

namespace Frame

/-- bytes in front of the payload -/
def headerSize : Nat := 5

/-- the bytes of a frame; a payload whose length does not fit into the header is refused -/
def encode (f : Frame) : Except EngineError Bytes :=
  if f.payload.length < UInt32.size then
    .ok (f.tag :: LittleEndian.encode 4 f.payload.length ++ f.payload)
  else .error (.protocol (.oversizedPayload f.payload.length))

/-- writes a frame behind what has been written, or nothing of a frame that is refused; also gives
the output as it is afterwards -/
def write (f : Frame) (output : Bytes) : Except EngineError Unit × Bytes :=
  match encode f with
  | .ok bytes => (.ok (), output ++ bytes)
  | .error e => (.error e, output)

/-- writes frames one after another, up to the first that is refused -/
def writeAll : List Frame → Bytes → Except EngineError Unit × Bytes
  | [], output => (.ok (), output)
  | f :: frames, output =>
    match f.write output with
    | (.ok (), output) => writeAll frames output
    | (.error e, output) => (.error e, output)

/-- the first frame of a byte stream that has ended, and the bytes after it -/
def read (stream : Bytes) : Except EngineError (Frame × Bytes) :=
  match stream with
  | tag :: a :: b :: c :: d :: rest =>
    let size := LittleEndian.decode [a, b, c, d]
    if size ≤ rest.length then .ok (⟨tag, rest.take size⟩, rest.drop size)
    else .error (.io .endedEarly)
  | _ => .error (.protocol .closedOutput)

/-- the frames of a byte stream that has ended, up to the error that ends the reading -/
def readWithin : Nat → Bytes → List Frame × Option EngineError
  | 0, _ => ([], none)
  | fuel + 1, stream =>
    match read stream with
    | .error e => ([], some e)
    | .ok (frame, rest) =>
      let (frames, e) := readWithin fuel rest
      (frame :: frames, e)

/-- the frames of a byte stream that has ended, up to the error that ends the reading; every frame
takes at least five bytes, so the reading does end -/
def readAll (stream : Bytes) : List Frame × Option EngineError :=
  readWithin (stream.length + 1) stream

end Frame

/-! ## Tags -/

/-- what a request asks for -/
inductive Operation where
  /-- the versions of the host and of its engine -/
  | version
  /-- the cache of a source -/
  | compile
  /-- running a cache -/
  | run
deriving DecidableEq, Repr

def Operation.tag : Operation → UInt8
  | .version => 0
  | .compile => 1
  | .run => 2

/-- whether a reply is a result or the report of an error -/
inductive Status where
  | ok
  | error
deriving DecidableEq, Repr

def Status.ofTag (tag : UInt8) : Except EngineError Status :=
  if tag = 0 then .ok .ok
  else if tag = 1 then .ok .error
  else .error (.protocol (.invalidStatus tag))

end CodeCache
