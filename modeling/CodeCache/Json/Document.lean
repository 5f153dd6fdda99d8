/-
JSON texts: the grammar, and what a text of the grammar means.

`Document.parse?` reads a text by the grammar alone; numbers stay literals and strings stay lists of
characters and escaped code units. `Document.value?` gives a document its meaning, and refuses what
has none: a lone surrogate, a number too large for a double, nesting beyond the given depth. A
reader that skips a part of a document therefore never asks whether that part has a meaning.
-/
import CodeCache.Json

namespace CodeCache.Json

/-! ## Documents -/

/-- a part of a string: a character, or a code unit written with four hexadecimal digits -/
inductive Piece where
  | char (c : Char)
  | unit (n : Nat)
deriving DecidableEq, Repr

/-- a number as written -/
structure NumberLiteral where
  negative : Bool
  /-- the digits in front of the point -/
  whole : Text
  /-- the digits after the point -/
  fraction : Option Text
  /-- the sign (`true` for minus) and the digits after the letter e -/
  exponent : Option (Bool × Text)
deriving DecidableEq, Repr

/-- a text of the grammar -/
inductive Document where
  | null
  | bool (b : Bool)
  | number (n : NumberLiteral)
  | string (pieces : List Piece)
  | array (items : List Document)
  | object (members : List (List Piece × Document))
deriving Repr, Inhabited

/-! ## Reading the grammar -/

/-- the four blanks of the grammar -/
def isSpace (c : Char) : Bool := c == ' ' || c == '\n' || c == '\t' || c == '\r'

def skipSpace (t : Text) : Text := t.dropWhile isSpace

/-- the character a one-letter escape stands for -/
def escaped? (c : Char) : Option Char :=
  if c == '"' then some '"'
  else if c == '\\' then some '\\'
  else if c == '/' then some '/'
  else if c == 'b' then some '\x08'
  else if c == 'f' then some '\x0c'
  else if c == 'n' then some '\n'
  else if c == 'r' then some '\r'
  else if c == 't' then some '\t'
  else none

/-- the number four hexadecimal digits write -/
def hexUnit? (a b c d : Char) : Option Nat := do
  let a ← Hex.value? a
  let b ← Hex.value? b
  let c ← Hex.value? c
  let d ← Hex.value? d
  some (((a * 16 + b) * 16 + c) * 16 + d)

/-- the pieces up to the closing quote, and the text after it -/
def readPieces? : Text → Option (List Piece × Text)
  | [] => none
  | '"' :: rest => some ([], rest)
  | '\\' :: 'u' :: a :: b :: c :: d :: rest => do
    let n ← hexUnit? a b c d
    let (pieces, rest) ← readPieces? rest
    some (.unit n :: pieces, rest)
  | '\\' :: c :: rest => do
    let c ← escaped? c
    let (pieces, rest) ← readPieces? rest
    some (.char c :: pieces, rest)
  | c :: rest =>
    if c.toNat < 0x20 then none
    else do
      let (pieces, rest) ← readPieces? rest
      some (.char c :: pieces, rest)

/-- at least one digit, and the text after the digits -/
def readDigits? (t : Text) : Option (Text × Text) :=
  let digits := t.takeWhile Text.isDigit
  if digits.isEmpty then none else some (digits, t.dropWhile Text.isDigit)

/-- the digits in front of the point: a single zero, or no zero first -/
def readWhole? : Text → Option (Text × Text)
  | '0' :: c :: rest => if Text.isDigit c then none else some (['0'], c :: rest)
  | t => readDigits? t

def readFraction? : Text → Option (Option Text × Text)
  | '.' :: rest => do
    let (digits, rest) ← readDigits? rest
    some (some digits, rest)
  | t => some (none, t)

/-- the digits of an exponent behind its sign -/
def readExponentDigits? (negative : Bool) (t : Text) : Option (Option (Bool × Text) × Text) := do
  let (digits, rest) ← readDigits? t
  some (some (negative, digits), rest)

def readExponent? : Text → Option (Option (Bool × Text) × Text)
  | c :: rest =>
    if c == 'e' || c == 'E' then
      match rest with
      | '+' :: rest => readExponentDigits? false rest
      | '-' :: rest => readExponentDigits? true rest
      | rest => readExponentDigits? false rest
    else some (none, c :: rest)
  | [] => some (none, [])

/-- the number behind its sign -/
def readUnsigned? (negative : Bool) (t : Text) : Option (NumberLiteral × Text) := do
  let (whole, rest) ← readWhole? t
  let (fraction, rest) ← readFraction? rest
  let (exponent, rest) ← readExponent? rest
  some (⟨negative, whole, fraction, exponent⟩, rest)

def readNumber? : Text → Option (NumberLiteral × Text)
  | '-' :: rest => readUnsigned? true rest
  | t => readUnsigned? false t

/-- `null`, `true`, `false` or a number -/
def readAtom? (t : Text) : Option (Document × Text) :=
  match "null".toList.isPrefixOf? t with
  | some rest => some (.null, rest)
  | none =>
    match "true".toList.isPrefixOf? t with
    | some rest => some (.bool true, rest)
    | none =>
      match "false".toList.isPrefixOf? t with
      | some rest => some (.bool false, rest)
      | none => (readNumber? t).map fun (n, rest) => (.number n, rest)

mutual

/-- one document at the start of a text, and the text after it -/
def readDocument? : Nat → Text → Option (Document × Text)
  | 0, _ => none
  | fuel + 1, t =>
    match skipSpace t with
    | '"' :: rest => (readPieces? rest).map fun (pieces, rest) => (.string pieces, rest)
    | '[' :: rest =>
      match skipSpace rest with
      | ']' :: rest => some (.array [], rest)
      | rest => (readItems? fuel rest).map fun (items, rest) => (.array items, rest)
    | '\x7b' :: rest =>
      match skipSpace rest with
      | '\x7d' :: rest => some (.object [], rest)
      | rest => (readMembers? fuel rest).map fun (members, rest) => (.object members, rest)
    | rest => readAtom? rest

/-- the items of an array, up to and with its closing bracket -/
def readItems? : Nat → Text → Option (List Document × Text)
  | 0, _ => none
  | fuel + 1, t => do
    let (item, rest) ← readDocument? fuel t
    match skipSpace rest with
    | ']' :: rest => some ([item], rest)
    | ',' :: rest => do
      let (items, rest) ← readItems? fuel rest
      some (item :: items, rest)
    | _ => none

/-- the members of an object, up to and with its closing brace -/
def readMembers? : Nat → Text → Option (List (List Piece × Document) × Text)
  | 0, _ => none
  | fuel + 1, t =>
    match skipSpace t with
    | '"' :: rest => do
      let (key, rest) ← readPieces? rest
      match skipSpace rest with
      | ':' :: rest => do
        let (value, rest) ← readDocument? fuel rest
        match skipSpace rest with
        | '\x7d' :: rest => some ([(key, value)], rest)
        | ',' :: rest => do
          let (members, rest) ← readMembers? fuel rest
          some ((key, value) :: members, rest)
        | _ => none
      | _ => none
    | _ => none

end

/-- the document a whole text writes, blanks around it allowed; every nested call but one consumes a
character, so twice the length of the text is fuel enough -/
def Document.parse? (t : Text) : Option Document := do
  let (document, rest) ← readDocument? (2 * t.length + 2) t
  if (skipSpace rest).isEmpty then some document else none

/-! ## The meaning of a document -/

/-- a code unit that must be followed by a low one -/
def isHighUnit (n : Nat) : Bool := 0xD800 ≤ n && n ≤ 0xDBFF

/-- a code unit that must follow a high one -/
def isLowUnit (n : Nat) : Bool := 0xDC00 ≤ n && n ≤ 0xDFFF

/-- the text of a string; code units join in pairs, and none may be left alone -/
def piecesText? : List Piece → Option Text
  | [] => some []
  | .char c :: rest => (piecesText? rest).map (c :: ·)
  | .unit a :: .unit b :: rest =>
    if isHighUnit a then
      if isLowUnit b then
        (piecesText? rest).map (Char.ofNat (0x10000 + (a - 0xD800) * 0x400 + (b - 0xDC00)) :: ·)
      else none
    else if isLowUnit a then none
    else (piecesText? (.unit b :: rest)).map (Char.ofNat a :: ·)
  | .unit a :: rest =>
    if isHighUnit a || isLowUnit a then none else (piecesText? rest).map (Char.ofNat a :: ·)

namespace NumberLiteral

/-- the largest significand that digits are collected into -/
def largestSignificand : Nat := UInt64.size - 1

/-- collects the digits in front of the point; from the first one that does not fit on, each only
counts as a factor ten -/
def collectWhole (significand exponent : Nat) (full : Bool) : Text → Nat × Nat
  | [] => (significand, exponent)
  | c :: rest =>
    let next := 10 * significand + Text.digitValue c
    if full || largestSignificand < next then collectWhole significand (exponent + 1) true rest
    else collectWhole next exponent false rest

/-- collects the digits after the point, up to the first one that does not fit -/
def collectFraction (significand : Nat) (exponent : Int) : Text → Nat × Int
  | [] => (significand, exponent)
  | c :: rest =>
    let next := 10 * significand + Text.digitValue c
    if largestSignificand < next then (significand, exponent)
    else collectFraction next (exponent - 1) rest

/-- multiplies a magnitude by a power of ten: one rounded product or quotient, preceded by quotients
by `10 ^ 308` while the exponent is below what a double can hold -/
def scale? : Nat → Nat → Int → Option Nat
  | 0, bits, _ => some bits
  | fuel + 1, bits, exponent =>
    if exponent.natAbs ≤ 308 then
      if 0 ≤ exponent then Binary64.mul? bits (Binary64.powerOfTen exponent.natAbs)
      else Binary64.div? bits (Binary64.powerOfTen exponent.natAbs)
    else if bits = 0 then some 0
    else if 0 ≤ exponent then none
    else do
      let bits ← Binary64.div? bits (Binary64.powerOfTen 308)
      scale? fuel bits (exponent + 308)

/-- the largest exponent, in either direction, that is counted exactly -/
def largestExponent : Nat := 0x7FFFFFFF

/-- the exponent after the letter e added to the one the digits left, within 32 bits -/
def totalExponent (start : Int) (negative : Bool) (n : Nat) : Int :=
  if negative then max (start - n) (-largestExponent - 1) else min (start + n) largestExponent

/-- the floating-point number of a literal; `none` if it is too large -/
def float? (n : NumberLiteral) : Option Binary64 := do
  let (significand, skipped) := collectWhole 0 0 false n.whole
  let (significand, start) := collectFraction significand (skipped : Int) (n.fraction.getD [])
  let bits ← Binary64.ofRatio? significand 1
  match n.exponent with
  | none => do
    let bits ← scale? 8 bits start
    some (Binary64.ofMagnitude n.negative bits)
  | some (negative, digits) =>
    let e := Text.digitsValue 0 digits
    if largestExponent < e then
      if significand ≠ 0 ∧ !negative then none else some (Binary64.ofMagnitude n.negative 0)
    else do
      let bits ← scale? 8 bits (totalExponent start negative e)
      some (Binary64.ofMagnitude n.negative bits)

/-- the value of a literal: an integer if it is written as one, is in range and is not minus zero -/
def value? (n : NumberLiteral) : Option Json :=
  let whole := Text.digitsValue 0 n.whole
  if n.fraction.isNone ∧ n.exponent.isNone then
    if !n.negative ∧ whole < UInt64.size then some (.int whole)
    else if n.negative ∧ whole ≠ 0 ∧ whole ≤ Nat.pow 2 63 then some (.int (-whole))
    else n.float?.map .float
  else n.float?.map .float

end NumberLiteral

mutual

/-- the value of a document whose arrays and objects are nested at most `depth` deep -/
def Document.value? (depth : Nat) : Document → Option Json
  | .null => some .null
  | .bool b => some (.bool b)
  | .number n => n.value?
  | .string pieces => (piecesText? pieces).map .str
  | .array items =>
    match depth with
    | 0 => none
    | depth + 1 => (itemValues? depth items).map .arr
  | .object members =>
    match depth with
    | 0 => none
    | depth + 1 => (memberValues? depth members).map Json.object

def itemValues? (depth : Nat) : List Document → Option (List Json)
  | [] => some []
  | item :: items => do
    let value ← Document.value? depth item
    let values ← itemValues? depth items
    some (value :: values)

def memberValues? (depth : Nat) : List (List Piece × Document) → Option (List (Text × Json))
  | [] => some []
  | (key, item) :: rest => do
    let key ← piecesText? key
    let value ← Document.value? depth item
    let values ← memberValues? depth rest
    some ((key, value) :: values)

end

/-- how deep arrays and objects may be nested in a text that is read as a value -/
def deepest : Nat := 127

/-- the value a whole text writes -/
def parse? (t : Text) : Option Json := (Document.parse? t).bind (Document.value? deepest)

end CodeCache.Json
