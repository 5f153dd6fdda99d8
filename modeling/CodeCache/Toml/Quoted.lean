/-
Quoted texts of TOML: basic strings with escapes and literal strings without, on one line or on
several.
-/
import CodeCache.Bytes

namespace CodeCache.Toml

/-- a blank within a line -/
def isBlank (c : Char) : Bool := c == ' ' || c == '\t'

/-- a character that may stand for itself: no control but the tab -/
def isPlain (c : Char) : Bool := c == '\t' || (0x20 ≤ c.toNat && c.toNat != 0x7F)

/-! ## Escapes -/

/-- a number that is a character: no surrogate, at most U+10FFFF -/
def charOf? (n : Nat) : Option Char := if h : n.isValidChar then some (Char.ofNatAux n h) else none

/-- the character given by the next `n` hexadecimal digits -/
def hexEscape? (n : Nat) (t : Text) : Option (Char × Text) := do
  let digits ← (t.take n).mapM Hex.value?
  if digits.length = n then
    (charOf? (digits.foldl (fun v d => 16 * v + d) 0)).map fun c => (c, t.drop n)
  else none

/-- what follows a backslash: the character it stands for, and the rest -/
def escape? : Text → Option (Char × Text)
  | [] => none
  | c :: rest =>
    if c == 'b' then some ('\x08', rest)
    else if c == 't' then some ('\t', rest)
    else if c == 'n' then some ('\n', rest)
    else if c == 'f' then some ('\x0c', rest)
    else if c == 'r' then some ('\r', rest)
    else if c == 'e' then some ('\x1b', rest)
    else if c == '"' then some ('"', rest)
    else if c == '\\' then some ('\\', rest)
    else if c == 'x' then hexEscape? 2 rest
    else if c == 'u' then hexEscape? 4 rest
    else if c == 'U' then hexEscape? 8 rest
    else none

/-! ## On one line -/

/-- a basic string behind its opening quote -/
def readBasic? : Nat → Text → Option (Text × Text)
  | 0, _ => none
  | fuel + 1, t =>
    match t with
    | [] => none
    | c :: rest =>
      if c == '"' then some ([], rest)
      else if c == '\\' then do
        let (c, rest) ← escape? rest
        let (content, rest) ← readBasic? fuel rest
        some (c :: content, rest)
      else if isPlain c then do
        let (content, rest) ← readBasic? fuel rest
        some (c :: content, rest)
      else none

/-- a literal string behind its opening quote -/
def readLiteral? (t : Text) : Option (Text × Text) :=
  match Text.splitFirst? '\'' t with
  | some (content, rest) => if content.all isPlain then some (content, rest) else none
  | none => none

/-! ## On several lines -/

/-- the text behind a line end, if it starts with one -/
def lineEnd? : Text → Option Text
  | '\n' :: rest => some rest
  | '\r' :: '\n' :: rest => some rest
  | _ => none

/-- without one line end at the start -/
def withoutLineEnd (t : Text) : Text := (lineEnd? t).getD t

/-- blanks and line ends are passed over; a carriage return without a line feed is refused -/
def skipLines? : Text → Option Text
  | [] => some []
  | '\r' :: '\n' :: rest => skipLines? rest
  | c :: rest =>
    if isBlank c || c == '\n' then skipLines? rest else if c == '\r' then none else some (c :: rest)

/-- the end of a string in three quotes: up to two more quotes belong to the content -/
def closing? (quote : Char) : Text → Option (Text × Text)
  | a :: b :: c :: rest =>
    if a == quote && b == quote && c == quote then
      let more := (rest.take 2).takeWhile (· == quote)
      some (more, rest.drop more.length)
    else none
  | _ => none

/-- a string of several lines behind its opening quotes; only a basic one (`escapes`) gives
backslashes a meaning -/
def readLines? (quote : Char) (escapes : Bool) : Nat → Text → Option (Text × Text)
  | 0, _ => none
  | fuel + 1, t =>
    match closing? quote t with
    | some result => some result
    | none =>
      match t with
      | [] => none
      | c :: rest =>
        if escapes && c == '\\' then
          match lineEnd? (rest.dropWhile isBlank) with
          | some rest => (skipLines? rest).bind (readLines? quote escapes fuel)
          | none => do
            let (c, rest) ← escape? rest
            let (content, rest) ← readLines? quote escapes fuel rest
            some (c :: content, rest)
        else if isPlain c || c == '\n' || (c == '\r' && rest.head? == some '\n') then do
          let (content, rest) ← readLines? quote escapes fuel rest
          some (c :: content, rest)
        else none

/-! ## Any of them -/

/-- a string behind its first quote; `lines` says whether it may go over several lines -/
def readString? (lines : Bool) (quote : Char) (t : Text) : Option (Text × Text) :=
  match t with
  | a :: b :: rest =>
    if a == quote && b == quote then
      if lines then readLines? quote (quote == '"') (rest.length + 1) (withoutLineEnd rest)
      else none
    else if quote == '"' then readBasic? (t.length + 1) t
    else readLiteral? t
  | _ => if quote == '"' then readBasic? (t.length + 1) t else readLiteral? t

end CodeCache.Toml
