/-
JSON from bytes that need not be a text.

The grammar knows a string by its quotes, backslashes and control characters, which are ASCII. So
bytes are read by their letters, and a string is decoded where its text is taken: then all of its
bytes have to be well-formed. A string that is passed over is never decoded.
-/
import CodeCache.Json.Document
import CodeCache.Text.Utf8

namespace CodeCache.Json

/-- the document that bytes write; its strings are in letters -/
def Document.ofBytes? (bs : Bytes) : Option Document := Document.parse? bs.letters

/-- the pieces of a string with its letters decoded, `behind` being the bytes in front of them in
reverse; what an escaped code unit stands for is whole, so the bytes between two of them are as well -/
def decodePieces? (behind : Bytes) : List Piece → Option (List Piece)
  | [] => (Utf8.decode? behind.reverse).map fun t => t.map .char
  | .char c :: rest => decodePieces? (UInt8.ofNat c.toNat :: behind) rest
  | .unit n :: rest => do
    let t ← Utf8.decode? behind.reverse
    let rest ← decodePieces? [] rest
    some (t.map .char ++ .unit n :: rest)

/-- the text of a string in letters -/
def lettersText? (pieces : List Piece) : Option Text := (decodePieces? [] pieces).bind piecesText?

mutual

/-- the document with the letters of all its strings decoded -/
def Document.decoded? : Document → Option Document
  | .string pieces => (decodePieces? [] pieces).map .string
  | .array items => (decodedItems? items).map .array
  | .object members => (decodedMembers? members).map .object
  | d => some d

def decodedItems? : List Document → Option (List Document)
  | [] => some []
  | item :: items => do
    let item ← Document.decoded? item
    let items ← decodedItems? items
    some (item :: items)

def decodedMembers? : List (List Piece × Document) → Option (List (List Piece × Document))
  | [] => some []
  | (key, item) :: rest => do
    let key ← decodePieces? [] key
    let item ← Document.decoded? item
    let rest ← decodedMembers? rest
    some ((key, item) :: rest)

end

end CodeCache.Json
