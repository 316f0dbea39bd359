/-!
# Shortest decimals

A double of the IEEE 754 binary format stands for an interval of reals: all that round to it. Its
shortest decimal is the one with the fewest digits in that interval, and among those of that length
the nearest to the double. Everything is computed with natural numbers.
-/

namespace VhdlLowering
namespace Decimal

/-- A finite positive double: `mantissa * 2 ^ exponent`. -/
structure Binary where
  mantissa : Nat
  exponent : Int
deriving DecidableEq, Repr

namespace Binary

/-- Decodes the bits of a double without its sign. -/
def ofBits (bits : UInt64) : Binary :=
  let fraction := bits.toNat % Nat.pow 2 52
  let power := bits.toNat / Nat.pow 2 52 % Nat.pow 2 11
  if power = 0 then ⟨fraction, -1074⟩ else ⟨Nat.pow 2 52 + fraction, Int.ofNat power - 1075⟩

variable (b : Binary)

/-- Numerator of `4 * mantissa + shift` quarters of the last binary place. -/
def numerator (shift : Int) : Nat :=
  (4 * Int.ofNat b.mantissa + shift).toNat * Nat.pow 2 (b.exponent - 2).toNat

def denominator : Nat := Nat.pow 2 (2 - b.exponent).toNat

/-- Half a place below; a quarter where the next lower double is nearer. -/
def lowShift : Int := if b.mantissa = Nat.pow 2 52 ∧ b.exponent ≠ -1074 then -1 else -2

/-- Whether `digits * 10 ^ scale` rounds to the double. -/
def admits (digits : Nat) (scale : Int) : Bool :=
  let x := digits * Nat.pow 10 scale.toNat * b.denominator
  let unit := Nat.pow 10 (-scale).toNat
  let low := b.numerator b.lowShift * unit
  let high := b.numerator 2 * unit
  if b.mantissa % 2 = 0 then low ≤ x && x ≤ high else low < x && x < high

/-- The greatest `e` with `10 ^ e` at most the double. -/
def magnitude : Int :=
  let n := b.numerator 0
  let d := b.denominator
  let guess := Int.ofNat (Nat.toDigits 10 n).length - Int.ofNat (Nat.toDigits 10 d).length
  if Nat.pow 10 guess.toNat * d ≤ n * Nat.pow 10 (-guess).toNat then guess else guess - 1

/-- The nearest of the two neighbours of the double among the multiples of `10 ^ scale`, if it
rounds to the double. -/
def nearest? (scale : Int) : Option Nat :=
  let n := b.numerator 0 * Nat.pow 10 (-scale).toNat
  let d := b.denominator * Nat.pow 10 scale.toNat
  let below := n / d
  let rest := n % d
  let first := if 2 * rest < d ∨ (2 * rest = d ∧ below % 2 = 0) then below else below + 1
  let second := if first = below then below + 1 else below
  if b.admits first scale then some first else if b.admits second scale then some second else none

end Binary

/-- Digits and the power of ten of the first digit. -/
structure Shortest where
  digits : List Char
  magnitude : Int
deriving DecidableEq, Repr

/-- Tries one digit, then two, and so on; seventeen digits always suffice. -/
def shortest (b : Binary) : Shortest :=
  let e := b.magnitude
  let found := (List.range 17).findSome? fun n =>
    (b.nearest? (e - Int.ofNat n)).map fun d => (d, e - Int.ofNat n)
  let (d, scale) := found.getD (b.mantissa, 0)
  let all := Nat.toDigits 10 d
  let digits := (all.reverse.dropWhile (· == '0')).reverse
  ⟨digits, scale + Int.ofNat all.length - 1⟩

/-- How a decimal is written: with positions while the first digit stands between two powers of
ten, otherwise with an exponent. -/
structure Style where
  leastPositional : Int
  greatestPositional : Int
  exponentMark : String
deriving Repr

namespace Style

variable (f : Style)

def zeros (n : Nat) : List Char := List.replicate n '0'

def positional (s : Shortest) : List Char :=
  if s.magnitude < 0 then
    "0.".toList ++ zeros ((-s.magnitude).toNat - 1) ++ s.digits
  else
    let whole := s.magnitude.toNat + 1
    if s.digits.length ≤ whole then
      s.digits ++ zeros (whole - s.digits.length) ++ ".0".toList
    else
      s.digits.take whole ++ '.' :: s.digits.drop whole

def scientific (s : Shortest) : List Char :=
  let exponent := Nat.toDigits 10 s.magnitude.natAbs
  let point := if s.digits.length ≤ 1 then [] else ['.']
  s.digits.take 1 ++ point ++ s.digits.drop 1 ++ f.exponentMark.toList ++
    [if s.magnitude < 0 then '-' else '+'] ++ exponent

/-- The text of a finite double. -/
def write (x : Float) : String :=
  let bits := x.toBits
  let sign := if bits.toNat < UInt64.size / 2 then [] else ['-']
  let b := Binary.ofBits bits
  let body :=
    if b.mantissa = 0 then "0.0".toList
    else
      let s := shortest b
      if f.leastPositional ≤ s.magnitude ∧ s.magnitude ≤ f.greatestPositional then positional s
      else f.scientific s
  String.ofList (sign ++ body)

end Style

end Decimal
end VhdlLowering
