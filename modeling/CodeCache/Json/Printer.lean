/-
Writing JSON values, on one line without blanks (`render`) or indented by two spaces a level
(`pretty`).
-/
import CodeCache.Json

namespace CodeCache.Json

/-! ## Strings and numbers -/

/-- one character inside a string: only quotes, backslashes and controls are escaped -/
def escapeChar (c : Char) : Text :=
  if c == '"' then ['\\', '"']
  else if c == '\\' then ['\\', '\\']
  else if c == '\x08' then ['\\', 'b']
  else if c == '\x0c' then ['\\', 'f']
  else if c == '\n' then ['\\', 'n']
  else if c == '\r' then ['\\', 'r']
  else if c == '\t' then ['\\', 't']
  else if c.toNat < 0x20 then
    ['\\', 'u', '0', '0', Hex.digit (c.toNat / 16), Hex.digit (c.toNat % 16)]
  else [c]

/-- a text as a string literal -/
def renderString (t : Text) : Text := '"' :: t.flatMap escapeChar ++ ['"']

/-- an integer in decimal -/
def renderInt (n : Int) : Text := if n < 0 then '-' :: Text.ofNat n.natAbs else Text.ofNat n.natAbs

/-- a decimal as a number: positional while the point falls into or close to its digits, with a
signed exponent otherwise -/
def renderDecimal (d : Binary64.Decimal) : Text :=
  let digits := Text.ofNat d.digits
  let point : Int := digits.length + d.exponent
  if 0 ≤ d.exponent ∧ point ≤ 16 then digits ++ List.replicate d.exponent.toNat '0' ++ ".0".toList
  else if 0 < point ∧ point ≤ 16 then digits.take point.toNat ++ '.' :: digits.drop point.toNat
  else if -5 < point ∧ point ≤ 0 then "0.".toList ++ List.replicate (-point).toNat '0' ++ digits
  else
    let exponent := (if 0 < point then '+' else '-') :: Text.ofNat (point - 1).natAbs
    match digits with
    | [digit] => digit :: 'e' :: exponent
    | digit :: more => digit :: '.' :: more ++ 'e' :: exponent
    | [] => []

/-- a finite floating-point number: the fewest digits that read back, and a sign even for zero -/
def renderFloat (x : Binary64) : Text :=
  let magnitude :=
    if x.magnitudeBits = 0 then "0.0".toList else renderDecimal (Binary64.shortest x.magnitudeBits)
  if x.isNegative then '-' :: magnitude else magnitude

/-! ## On one line -/

mutual

/-- the value without any blanks -/
def render : Json → Text
  | .null => "null".toList
  | .bool b => if b then "true".toList else "false".toList
  | .int n => renderInt n
  | .float x => renderFloat x
  | .str t => renderString t
  | .arr items => '[' :: renderItems items ++ [']']
  | .obj members => '\x7b' :: renderMembers members ++ ['\x7d']

def renderItems : List Json → Text
  | [] => []
  | [item] => render item
  | item :: items => render item ++ ',' :: renderItems items

def renderMembers : List (Text × Json) → Text
  | [] => []
  | [(key, value)] => renderString key ++ ':' :: render value
  | (key, value) :: members =>
    renderString key ++ ':' :: render value ++ ',' :: renderMembers members

end

/-! ## Indented -/

/-- a new line at a level of indentation -/
def newLine (level : Nat) : Text := '\n' :: List.replicate (2 * level) ' '

mutual

/-- the value over several lines, its first line already placed at `level` -/
def prettyAt (level : Nat) : Json → Text
  | .null => "null".toList
  | .bool b => if b then "true".toList else "false".toList
  | .int n => renderInt n
  | .float x => renderFloat x
  | .str t => renderString t
  | .arr [] => "[]".toList
  | .arr items => '[' :: prettyItems (level + 1) items ++ newLine level ++ [']']
  | .obj [] => ['\x7b', '\x7d']
  | .obj members => '\x7b' :: prettyMembers (level + 1) members ++ newLine level ++ ['\x7d']

def prettyItems (level : Nat) : List Json → Text
  | [] => []
  | [item] => newLine level ++ prettyAt level item
  | item :: items => newLine level ++ prettyAt level item ++ ',' :: prettyItems level items

def prettyMembers (level : Nat) : List (Text × Json) → Text
  | [] => []
  | [(key, value)] => newLine level ++ renderString key ++ ": ".toList ++ prettyAt level value
  | (key, value) :: members =>
    newLine level ++ renderString key ++ ": ".toList ++ prettyAt level value ++
      ',' :: prettyMembers level members

end

/-- the value over several lines -/
def pretty (value : Json) : Text := prettyAt 0 value

end CodeCache.Json
