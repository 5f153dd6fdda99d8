/-
Texts: lists of Unicode scalar values, with the few operations the rest of the library needs
(splitting, trimming, searching, replacing, counting code units).

A text is kept as its list of characters, so that every operation on it is a recursion on the list;
`String` appears where a value leaves the program (error messages, printed output) and in literals,
which coerce.
-/

namespace CodeCache

/-- a text: its Unicode scalar values, in order -/
abbrev Text := List Char

instance : Coe String Text := ⟨String.toList⟩

namespace Text

/-! ## Cutting -/

/-- puts a character in front of the first piece -/
def pushFirst (c : Char) : List Text → List Text
  | [] => [[c]]
  | piece :: pieces => (c :: piece) :: pieces

/-- the pieces between the characters satisfying `p`; there is always at least one piece -/
def splitWhere (p : Char → Bool) : Text → List Text
  | [] => [[]]
  | c :: cs => if p c then [] :: splitWhere p cs else pushFirst c (splitWhere p cs)

/-- the pieces between the occurrences of `sep` -/
def splitOn (sep : Char) (t : Text) : List Text := splitWhere (· == sep) t

/-- the pieces one after another, `sep` between them -/
def join (sep : Text) : List Text → Text
  | [] => []
  | [piece] => piece
  | piece :: pieces => piece ++ sep ++ join sep pieces

/-- the text before and after the first `sep`, if there is one -/
def splitFirst? (sep : Char) : Text → Option (Text × Text)
  | [] => none
  | c :: cs =>
    if c == sep then some ([], cs) else (splitFirst? sep cs).map fun (a, b) => (c :: a, b)

/-- the text before and after the last `sep`, if there is one -/
def splitLast? (sep : Char) : Text → Option (Text × Text)
  | [] => none
  | c :: cs =>
    match splitLast? sep cs with
    | some (a, b) => some (c :: a, b)
    | none => if c == sep then some ([], cs) else none

/-! ## Trimming -/

/-- the characters with the Unicode property White_Space -/
def isBlank (c : Char) : Bool :=
  let n := c.toNat
  (9 ≤ n && n ≤ 13) || n == 0x20 || n == 0x85 || n == 0xA0 || n == 0x1680 ||
    (0x2000 ≤ n && n ≤ 0x200A) || n == 0x2028 || n == 0x2029 || n == 0x202F || n == 0x205F ||
    n == 0x3000

/-- without the characters satisfying `p` at the end -/
def trimEnd (p : Char → Bool) (t : Text) : Text := (t.reverse.dropWhile p).reverse

/-- without the blanks at both ends -/
def trim (t : Text) : Text := trimEnd isBlank (t.dropWhile isBlank)

/-! ## Searching and replacing -/

/-- `part` occurs somewhere in the text -/
def contains (part : Text) : Text → Bool
  | [] => part.isEmpty
  | c :: cs => part.isPrefixOf (c :: cs) || contains part cs

/-- the text with the first `mark` replaced by `filling`; unchanged if there is none -/
def replaceFirst (mark filling : Text) : Text → Text
  | [] => if mark.isEmpty then filling else []
  | c :: cs =>
    match mark.isPrefixOf? (c :: cs) with
    | some rest => filling ++ rest
    | none => c :: replaceFirst mark filling cs

/-- the lines joined, each closed by a line feed -/
def ofLines (lines : List String) : Text := lines.flatMap fun line => line.toList ++ ['\n']

/-! ## Numbers -/

/-- the decimal digits of `n` -/
def ofNat (n : Nat) : Text := (toString n).toList

/-- an ASCII decimal digit -/
def isDigit (c : Char) : Bool := '0' ≤ c && c ≤ '9'

/-- the value of a decimal digit -/
def digitValue (c : Char) : Nat := c.toNat - 48

/-- the value of a run of decimal digits, continuing from `acc` -/
def digitsValue (acc : Nat) (t : Text) : Nat := t.foldl (fun n c => 10 * n + digitValue c) acc

/-- the number a non-empty run of ASCII digits writes -/
def toNat? (t : Text) : Option Nat :=
  if t.isEmpty || !t.all isDigit then none else some (digitsValue 0 t)

/-! ## Code units -/

/-- how many UTF-16 code units a character takes -/
def unitsOf (c : Char) : Nat := if c.toNat < 0x10000 then 1 else 2

/-- how many UTF-16 code units the text takes -/
def units (t : Text) : Nat := t.foldl (fun n c => n + unitsOf c) 0

end Text

end CodeCache
