import VhdlLowering.Decimal.Shortest
import VhdlLowering.Json.Fault

/-!
# Numerals

A numeral is a sign, a whole part, an optional fraction and an optional exponent. Its value is a
natural number or a negative integer when it is written without fraction and exponent and fits in
64 bits, and a double in all other cases.
-/

namespace VhdlLowering
namespace Json

/-- The parts of a numeral; digits are given by their values. -/
structure Numeral where
  negative : Bool
  whole : List Nat
  fraction : List Nat
  /-- Whether the exponent is negative, and its digits. -/
  exponent : Option (Bool × List Nat)
deriving DecidableEq, Repr

inductive Number where
  | natural (n : Nat)
  | negative (n : Int)
  | double (x : Float)
deriving Repr

namespace Number

/-- Doubles in messages have positions from `1e-5` to below `1e16` and else an exponent. -/
def doubleStyle : Decimal.Style := ⟨-5, 15, "e"⟩

def describe : Number → Found
  | natural n => .integer (Int.ofNat n)
  | negative n => .integer n
  | double x => .decimal (doubleStyle.write x)

end Number

def digitsOf (cs : List Char) : List Nat :=
  (cs.takeWhile Char.isDigit).map fun c => c.toNat - '0'.toNat

def afterDigits (cs : List Char) : List Char := cs.dropWhile Char.isDigit

/-- Where a numeral breaks off: the offset at which this shows, and whether the text ends there. -/
structure Break where
  offset : Nat
  atEnd : Bool
deriving DecidableEq, Repr

/-- The fault met when the value of the numeral is wanted. -/
def Break.valueFault (b : Break) : Fault :=
  ⟨if b.atEnd then .endOfValue else .invalidNumber, some b.offset⟩

/-- The fault met when the numeral is passed over. -/
def Break.skipFault (b : Break) : Fault := ⟨.invalidNumber, some b.offset⟩

/-- A scanned part, the offset after it and the rest of the text. -/
structure Scanned (α : Type) where
  value : α
  stop : Nat
  rest : List Char
deriving DecidableEq, Repr

/-- At least one digit. A missing digit shows one byte further on. -/
def scanDigits (pos : Nat) (cs : List Char) : Except Break (Scanned (List Nat)) :=
  match digitsOf cs with
  | [] => .error (if cs.isEmpty then ⟨pos, true⟩ else ⟨pos + 1, false⟩)
  | d :: ds => .ok ⟨d :: ds, pos + (d :: ds).length, afterDigits cs⟩

/-- The whole part: a zero alone, or digits that do not start with zero. -/
def scanWhole (pos : Nat) (cs : List Char) : Except Break (Scanned (List Nat)) :=
  match cs with
  | '0' :: c :: rest => if c.isDigit then .error ⟨pos + 2, false⟩ else .ok ⟨[0], pos + 1, c :: rest⟩
  | _ => scanDigits pos cs

def scanFraction (pos : Nat) (cs : List Char) : Except Break (Scanned (List Nat)) :=
  match cs with
  | '.' :: rest => scanDigits (pos + 1) rest
  | _ => .ok ⟨[], pos, cs⟩

/-- The digits of an exponent after its sign. -/
def scanPower (negative : Bool) (pos : Nat) (cs : List Char) :
    Except Break (Scanned (Option (Bool × List Nat))) :=
  (scanDigits pos cs).map fun r => ⟨some (negative, r.value), r.stop, r.rest⟩

def scanExponent (pos : Nat) (cs : List Char) :
    Except Break (Scanned (Option (Bool × List Nat))) :=
  match cs with
  | [] => .ok ⟨none, pos, cs⟩
  | c :: rest =>
    if c = 'e' ∨ c = 'E' then
      match rest with
      | '-' :: rest => scanPower true (pos + 2) rest
      | '+' :: rest => scanPower false (pos + 2) rest
      | _ => scanPower false (pos + 1) rest
    else .ok ⟨none, pos, cs⟩

def scanNumeral (pos : Nat) (cs : List Char) : Except Break (Scanned Numeral) := do
  let negative := cs.head? == some '-'
  let w ← if negative then scanWhole (pos + 1) (cs.drop 1) else scanWhole pos cs
  let f ← scanFraction w.stop w.rest
  let e ← scanExponent f.stop f.rest
  return ⟨⟨negative, w.value, f.value, e.value⟩, e.stop, e.rest⟩

/-- Reads further digits while the number stays within the bound; the rest is left unread. -/
def absorb (bound : Nat) (n : Nat) : List Nat → Nat × List Nat
  | [] => (n, [])
  | d :: ds => if 10 * n + d ≤ bound then absorb bound (10 * n + d) ds else (n, d :: ds)

/-- Divides by powers of ten, at most `1e308` at a time. -/
def scaleDown (fuel : Nat) (x : Float) (power : Nat) : Float :=
  match fuel with
  | 0 => x
  | fuel + 1 =>
    if power ≤ 308 then x / Float.ofScientific 1 false power
    else if x == 0 then x
    else scaleDown fuel (x / Float.ofScientific 1 false 308) (power - 308)

/-- The double `n * 10 ^ power`, rounded at each step; none if it is infinite. -/
def scaled (n : Nat) (power : Int) : Option Float :=
  let x := n.toUInt64.toFloat
  if power < 0 then some (scaleDown (power.natAbs + 1) x power.natAbs)
  else if power.natAbs ≤ 308 then
    let y := x * Float.ofScientific 1 false power.natAbs
    if y.isInf then none else some y
  else if x == 0 then some x
  else none

namespace Numeral

/-- Keeps an exponent in the range of words of 32 bits with sign. -/
def clamp (e : Int) : Int := max (-0x80000000) (min 0x7FFFFFFF e)

/-- The value of a numeral that ends at the given offset. The significand keeps the leading digits
that fit in 64 bits, whole digits beyond them count in the exponent, and further digits of the
fraction are dropped. -/
def value (stop : Nat) (x : Numeral) : Except Fault Number :=
  let (whole, wholeRest) := absorb (UInt64.size - 1) 0 x.whole
  if x.fraction.isEmpty ∧ x.exponent.isNone ∧ wholeRest.isEmpty ∧
      (x.negative = false ∨ (0 < whole ∧ whole ≤ UInt64.size / 2)) then
    .ok (if x.negative then .negative (-Int.ofNat whole) else .natural whole)
  else
    let (significand, rest) := absorb (UInt64.size - 1) whole x.fraction
    let power := Int.ofNat wholeRest.length - Int.ofNat (x.fraction.length - rest.length)
    let signed (y : Float) : Number := .double (if x.negative then -y else y)
    let outOfRange (place : Nat) : Except Fault Number := .error ⟨.numberOutOfRange, some place⟩
    let finish (power : Int) : Except Fault Number :=
      match scaled significand power with
      | some y => .ok (signed y)
      | none => outOfRange stop
    match x.exponent with
    | none => finish power
    | some (negative, digits) =>
      match absorb 0x7FFFFFFF 0 digits with
      | (e, []) => finish (clamp (if negative then power - Int.ofNat e else power + Int.ofNat e))
      | (_, unread) =>
        if negative = false ∧ significand ≠ 0 then outOfRange (stop - unread.length + 1)
        else .ok (signed 0)

end Numeral

end Json
end VhdlLowering
