/-
Binary floating-point numbers of 64 bits, kept as their bits and computed with in exact integer
arithmetic.

`ofRatio?` rounds a quotient of naturals to the nearest number, ties to the even one, and refuses a
quotient that rounds above the largest number. Products, quotients and the powers of ten are built
on it, so no operation here depends on the machine's own floating-point unit.
-/
import CodeCache.Bytes

namespace CodeCache

/-- a 64-bit floating-point number, as its bits -/
structure Binary64 where
  bits : UInt64
deriving DecidableEq, Repr

namespace Binary64

/-- the bits of the infinity: every magnitude below is finite -/
def infinity : Nat := 0x7FF0000000000000

/-- a positive magnitude: `mantissa * 2 ^ exponent` -/
structure Magnitude where
  mantissa : Nat
  exponent : Int
deriving DecidableEq, Repr

/-- the magnitude that bits without a sign stand for -/
def magnitude (bits : Nat) : Magnitude :=
  let field : Nat := bits / Nat.pow 2 52
  let fraction : Nat := bits % Nat.pow 2 52
  if field = 0 then ⟨fraction, -1074⟩ else ⟨Nat.pow 2 52 + fraction, (field : Int) - 1075⟩

/-- `2 ^ e` as a quotient of naturals -/
def powerOfTwo (e : Int) : Nat × Nat :=
  if 0 ≤ e then (Nat.pow 2 e.toNat, 1) else (1, Nat.pow 2 (-e).toNat)

/-- the exponent at which `num / den` has 53 significant bits, but not below the smallest one there
is -/
def exponentOf (num den : Nat) : Int :=
  let guess : Int := (Nat.log2 num : Int) - (Nat.log2 den : Int) - 52
  let (up, down) := powerOfTwo guess
  let exact := if num * down < Nat.pow 2 52 * (den * up) then guess - 1 else guess
  max exact (-1074)

/-- the bits of the number nearest to `num / den`, ties to the even one; `none` if that is above the
largest number -/
def ofRatio? (num den : Nat) : Option Nat :=
  if num = 0 then some 0
  else
    let e := exponentOf num den
    let (up, down) := powerOfTwo e
    let q := num * down / (den * up)
    let r := num * down % (den * up)
    let rounded := if den * up < 2 * r ∨ (2 * r = den * up ∧ q % 2 = 1) then q + 1 else q
    let bits := (e + 1074).toNat * Nat.pow 2 52 + rounded
    if bits < infinity then some bits else none

/-- the rounded product of two magnitudes given by their bits -/
def mul? (a b : Nat) : Option Nat :=
  let x := magnitude a
  let y := magnitude b
  let (up, down) := powerOfTwo (x.exponent + y.exponent)
  ofRatio? (x.mantissa * y.mantissa * up) down

/-- the rounded quotient of two magnitudes given by their bits; the second is not zero -/
def div? (a b : Nat) : Option Nat :=
  let x := magnitude a
  let y := magnitude b
  let (up, down) := powerOfTwo (x.exponent - y.exponent)
  ofRatio? (x.mantissa * up) (y.mantissa * down)

/-- the number nearest to `10 ^ k`, for `k` at most 308 -/
def powerOfTen (k : Nat) : Nat := (ofRatio? (Nat.pow 10 k) 1).getD infinity

/-- a magnitude with its sign -/
def ofMagnitude (negative : Bool) (bits : Nat) : Binary64 :=
  ⟨UInt64.ofNat (if negative then Nat.pow 2 63 + bits else bits)⟩

/-- the sign bit -/
def isNegative (x : Binary64) : Bool := Nat.pow 2 63 ≤ x.bits.toNat

/-- the bits without the sign -/
def magnitudeBits (x : Binary64) : Nat := x.bits.toNat % Nat.pow 2 63

/-! ## Shortest decimal text -/

/-- a decimal: `digits * 10 ^ exponent` -/
structure Decimal where
  digits : Nat
  exponent : Int
deriving DecidableEq, Repr

/-- `10 ^ e` as a quotient of naturals -/
def decimalScale (e : Int) : Nat × Nat :=
  if 0 ≤ e then (Nat.pow 10 e.toNat, 1) else (1, Nat.pow 10 (-e).toNat)

/-- the decimal rounds to the number with these bits -/
def readsBack (bits : Nat) (d : Decimal) : Bool :=
  let (up, down) := decimalScale d.exponent
  ofRatio? (d.digits * up) down == some bits

/-- of the two multiples of `10 ^ e` around the magnitude, the nearest one that rounds to it; a tie
goes to even digits -/
def onGrid? (bits : Nat) (e : Int) : Option Decimal :=
  let m := magnitude bits
  let (two, half) := powerOfTwo m.exponent
  let (ten, tenth) := decimalScale e
  let num := m.mantissa * two * tenth
  let den := half * ten
  let below := num / den
  let r := num % den
  let low : Decimal := ⟨below, e⟩
  let high : Decimal := ⟨below + 1, e⟩
  match readsBack bits low, readsBack bits high with
  | true, true => some (if 2 * r < den ∨ (2 * r = den ∧ below % 2 = 0) then low else high)
  | true, false => some low
  | false, true => some high
  | false, false => none

/-- tries the grids `10 ^ e`, `10 ^ (e - 1)`, … -/
def firstGrid (bits : Nat) : Nat → Int → Decimal
  | 0, _ => ⟨0, 0⟩
  | fuel + 1, e => (onGrid? bits e).getD (firstGrid bits fuel (e - 1))

/-- without the zeros at the end of the digits -/
def Decimal.strip : Nat → Decimal → Decimal
  | 0, d => d
  | fuel + 1, d =>
    if d.digits ≠ 0 ∧ d.digits % 10 = 0 then Decimal.strip fuel ⟨d.digits / 10, d.exponent + 1⟩
    else d

/-- the decimal with the fewest digits that reads back as the positive number with these bits -/
def shortest (bits : Nat) : Decimal := (firstGrid bits 700 310).strip 700

end Binary64

end CodeCache
