/-
The values of TOML that are written without quotes or brackets: booleans, integers, floating-point
numbers, dates and times.
-/
import CodeCache.Toml.Value

namespace CodeCache.Toml

/-! ## Digits -/

/-- a run of digits in which single underscores may stand between two digits, without the
underscores -/
def digits? (isDigit : Char → Bool) (t : Text) : Option Text :=
  let groups := Text.splitOn '_' t
  if groups.all fun group => !group.isEmpty && group.all isDigit then some groups.flatten else none

/-- decimal digits whose first is zero only if it is alone -/
def plainDigits? (t : Text) : Option Text :=
  match digits? Text.isDigit t with
  | some ['0'] => some ['0']
  | some ('0' :: _) => none
  | other => other

/-- the number of digits in some base -/
def valueInBase (base : Nat) (t : Text) : Nat :=
  t.foldl (fun n c => base * n + (Hex.value? c).getD 0) 0

/-- a digit below the base -/
def isDigitOf (base : Nat) (c : Char) : Bool := (Hex.value? c).any (· < base)

/-! ## Numbers -/

/-- a sign, if there is one, and the rest; `true` for minus -/
def sign : Text → Option Bool × Text
  | '+' :: rest => (some false, rest)
  | '-' :: rest => (some true, rest)
  | t => (none, t)

/-- an integer in the range that can be held: 128 bits, with or without a sign -/
def integer? (negative : Bool) (n : Nat) : Option Value :=
  if negative then if n ≤ Nat.pow 2 127 then some (.int (-n)) else none
  else if n < Nat.pow 2 128 then some (.int n) else none

/-- an integer behind a base mark -/
def basedInteger? (base : Nat) (t : Text) : Option Value :=
  (digits? (isDigitOf base) t).bind fun t => integer? false (valueInBase base t)

/-- the magnitude of `digits * 10 ^ exponent`; `none` if it is too large. The number lies below ten
to the power `top`, so its size is known, where it is out of range, before any power is computed -/
def magnitude? (digits : Text) (exponent : Int) : Option Nat :=
  let significand := Text.digitsValue 0 digits
  let top : Int := (Text.ofNat significand).length + exponent
  if significand = 0 then some 0
  else if 309 < top then none
  else if top < -400 then some 0
  else
    let (up, down) := Binary64.decimalScale exponent
    Binary64.ofRatio? (significand * up) down

/-- an exponent: a sign, if there is one, and digits -/
def exponent? (t : Text) : Option Int :=
  let (negative, body) := sign t
  (digits? Text.isDigit body).map fun ds =>
    if negative == some true then -(Text.digitsValue 0 ds : Int) else Text.digitsValue 0 ds

/-- the fraction behind a point and the exponent behind a letter e -/
def fractionAndExponent? (t : Text) : Option (Text × Int) :=
  let isExponentMark (c : Char) := c == 'e' || c == 'E'
  match t with
  | '.' :: rest => do
    let fraction ← digits? Text.isDigit (rest.takeWhile fun c => !isExponentMark c)
    match rest.dropWhile fun c => !isExponentMark c with
    | [] => some (fraction, 0)
    | _ :: rest => (exponent? rest).map fun e => (fraction, e)
  | c :: rest => if isExponentMark c then (exponent? rest).map fun e => ([], e) else none
  | [] => none

/-- a decimal number behind its sign -/
def decimal? (negative : Bool) (t : Text) : Option Value := do
  let isWhole (c : Char) := Text.isDigit c || c == '_'
  let whole ← plainDigits? (t.takeWhile isWhole)
  match t.dropWhile isWhole with
  | [] => integer? negative (Text.digitsValue 0 whole)
  | rest => do
    let (fraction, exponent) ← fractionAndExponent? rest
    let magnitude ← magnitude? (whole ++ fraction) (exponent - fraction.length)
    some (.float (Binary64.ofMagnitude negative magnitude))

def number? (t : Text) : Option Value :=
  match t with
  | '0' :: 'x' :: rest => basedInteger? 16 rest
  | '0' :: 'o' :: rest => basedInteger? 8 rest
  | '0' :: 'b' :: rest => basedInteger? 2 rest
  | _ =>
    let (minus, body) := sign t
    let negative := minus == some true
    if body = "inf".toList then some (.float (Binary64.ofMagnitude negative Binary64.infinity))
    else if body = "nan".toList then
      some (.float (Binary64.ofMagnitude negative (Binary64.infinity + Nat.pow 2 51)))
    else decimal? negative body

/-! ## Dates and times -/

/-- exactly `n` digits, their value and the rest -/
def fixed? (n : Nat) (t : Text) : Option (Nat × Text) :=
  if (t.take n).length = n then (Text.toNat? (t.take n)).map fun value => (value, t.drop n)
  else none

/-- the rest behind a character -/
def after? (c : Char) : Text → Option Text
  | d :: rest => if c = d then some rest else none
  | [] => none

def isLeapYear (year : Nat) : Bool := (year % 4 == 0 && year % 100 != 0) || year % 400 == 0

def daysIn (year month : Nat) : Nat :=
  if month = 2 then if isLeapYear year then 29 else 28
  else if month = 4 ∨ month = 6 ∨ month = 9 ∨ month = 11 then 30
  else 31

/-- a date, and the rest -/
def date? (t : Text) : Option Text := do
  let (year, rest) ← fixed? 4 t
  let (month, rest) ← fixed? 2 (← after? '-' rest)
  let (day, rest) ← fixed? 2 (← after? '-' rest)
  if 1 ≤ month ∧ month ≤ 12 ∧ 1 ≤ day ∧ day ≤ daysIn year month then some rest else none

/-- digits behind a point, if there is one -/
def secondFraction? : Text → Option Text
  | '.' :: rest =>
    if (rest.takeWhile Text.isDigit).isEmpty then none else some (rest.dropWhile Text.isDigit)
  | t => some t

/-- seconds, if there are any -/
def seconds? : Text → Option Text
  | ':' :: rest => do
    let (second, rest) ← fixed? 2 rest
    if second ≤ 60 then secondFraction? rest else none
  | t => some t

/-- a time of day, and the rest -/
def time? (t : Text) : Option Text := do
  let (hour, rest) ← fixed? 2 t
  let (minute, rest) ← fixed? 2 (← after? ':' rest)
  if hour ≤ 23 ∧ minute ≤ 59 then seconds? rest else none

/-- an offset from universal time, or none -/
def offset? (t : Text) : Option Text :=
  match t with
  | [] => some []
  | c :: rest =>
    if c == 'Z' || c == 'z' then some rest
    else if c == '+' || c == '-' then do
      let (hour, rest) ← fixed? 2 rest
      let (minute, rest) ← fixed? 2 (← after? ':' rest)
      if hour ≤ 23 ∧ minute ≤ 59 then some rest else none
    else none

/-- what may follow a date: nothing, or a time with or without an offset -/
def afterDate? : Text → Option Text
  | [] => some []
  | c :: rest => if c == 'T' || c == 't' || c == ' ' then (time? rest).bind offset? else none

def moment? (t : Text) : Option Value :=
  match (match date? t with
    | some rest => afterDate? rest
    | none => time? t) with
  | some [] => some (.moment t)
  | _ => none

/-! ## Any of them -/

/-- the characters of a value written without quotes or brackets -/
def isScalarChar (c : Char) : Bool :=
  c.isAlphanum || c == '_' || c == '+' || c == '-' || c == '.' || c == ':'

def scalar? (t : Text) : Option Value :=
  if t = "true".toList then some (.bool true)
  else if t = "false".toList then some (.bool false)
  else (moment? t).or (number? t)

/-- the text of a scalar and the rest; a date may be divided from its time by one blank -/
def takeScalar (t : Text) : Text × Text :=
  let first := t.takeWhile isScalarChar
  match t.dropWhile isScalarChar with
  | ' ' :: c :: rest =>
    if date? first == some [] && Text.isDigit c then
      (first ++ ' ' :: (c :: rest).takeWhile isScalarChar, (c :: rest).dropWhile isScalarChar)
    else (first, ' ' :: c :: rest)
  | rest => (first, rest)

end CodeCache.Toml
