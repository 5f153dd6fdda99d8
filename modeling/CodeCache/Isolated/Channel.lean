/-
The message channel of a compiler process: one message a line.

Lines end at a line feed, and one carriage return in front of it belongs to the end; bytes behind
the last line feed are a line too. Blank lines carry no message, and a line that is not text ends
the reading.
-/
import CodeCache.Json.Document
import CodeCache.Text.Utf8

namespace CodeCache.Channel

/-- puts a byte in front of the first line -/
def pushFirst (b : UInt8) : List Bytes → List Bytes
  | [] => [[b]]
  | line :: lines => (b :: line) :: lines

/-- without one carriage return at the end -/
def withoutReturn (line : Bytes) : Bytes := if line.getLast? == some 13 then line.dropLast else line

/-- the bytes up to each line feed, and those behind the last one -/
def cut : Bytes → List Bytes
  | [] => [[]]
  | b :: bs => if b = 10 then [] :: cut bs else pushFirst b (cut bs)

/-- every line but the last was ended by a line feed -/
def close : List Bytes → List Bytes
  | [] => []
  | [last] => if last.isEmpty then [] else [last]
  | line :: lines => withoutReturn line :: close lines

/-- the lines, their ends removed -/
def lines (channel : Bytes) : List Bytes := close (cut channel)

/-- a line as a message: its value if it is JSON, else the line itself -/
def message (line : Text) : Json := (Json.parse? line).getD (.str line)

/-- the messages of the lines up to the first that is not text -/
def collect : List Bytes → List Json
  | [] => []
  | line :: lines =>
    match Utf8.decode? line with
    | none => []
    | some t => if t.all Text.isBlank then collect lines else message t :: collect lines

/-- the messages written to a channel -/
def messages (channel : Bytes) : List Json := collect (lines channel)

end CodeCache.Channel
