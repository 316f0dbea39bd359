import VhdlLowering.Json.Fault

/-!
# String literals

A string literal is read in one pass over its characters. Decoding gives the text; passing over the
literal only finds its end and is more lenient: it does not look at what the four digits of an escape
stand for. Offsets count bytes, so an escape is over four bytes after its letter.
-/

namespace VhdlLowering
namespace Json

def hexDigit? (c : Char) : Option Nat :=
  if c.isDigit then some (c.toNat - '0'.toNat)
  else if 'a' ≤ c ∧ c ≤ 'f' then some (c.toNat - 'a'.toNat + 10)
  else if 'A' ≤ c ∧ c ≤ 'F' then some (c.toNat - 'A'.toNat + 10)
  else none

/-- The character that a letter after a backslash stands for. -/
def escaped? : Char → Option Char
  | '"' => some '"'
  | '\\' => some '\\'
  | '/' => some '/'
  | 'b' => some '\x08'
  | 'f' => some '\x0c'
  | 'n' => some '\n'
  | 'r' => some '\r'
  | 't' => some '\t'
  | _ => none

/-- Where a reader stands in a literal. -/
inductive Spot where
  | plain
  /-- After a backslash. -/
  | escape
  /-- Among the four digits of an escape: the bytes seen and their value, if they are digits. -/
  | digits (seen : Nat) (value : Option Nat)
deriving DecidableEq, Repr

/-- Adds a character to the value of an escape. -/
def addDigit (value : Option Nat) (c : Char) : Option Nat := do
  return 16 * (← value) + (← hexDigit? c)

def isLeading (n : Nat) : Bool := 0xD800 ≤ n && n ≤ 0xDBFF

def isTrailing (n : Nat) : Bool := 0xDC00 ≤ n && n ≤ 0xDFFF

/-- The character of two surrogates. -/
def joinSurrogates (leading trailing : Nat) : Char :=
  Char.ofNat (0x10000 + (leading - 0xD800) * 0x400 + (trailing - 0xDC00))

/-- Decodes the rest of a literal. A leading surrogate waits in `pending` for its partner; `done`
holds the decoded text backwards. The answer also has the offset and the text after the literal. -/
def decode (pos : Nat) (pending : Option Nat) (spot : Spot) (done : List Char) :
    List Char → Except Fault (String × Nat × List Char)
  | [] => .error ⟨.endOfString, none⟩
  | c :: cs =>
    let next := pos + c.utf8Size
    match spot, pending with
    | .plain, none =>
      if c = '"' then .ok (String.ofList done.reverse, next, cs)
      else if c = '\\' then decode next none .escape done cs
      else if c.toNat < 0x20 then .error ⟨.controlCharacter, some (pos + 1)⟩
      else decode next none .plain (c :: done) cs
    | .plain, some n =>
      if c = '\\' then decode next (some n) .escape done cs
      else .error ⟨.unfinishedSurrogate, some (pos + 1)⟩
    | .escape, none =>
      if c = 'u' then decode next none (.digits 0 (some 0)) done cs
      else match escaped? c with
        | some d => decode next none .plain (d :: done) cs
        | none => .error ⟨.invalidEscape, some (pos + 1)⟩
    | .escape, some n =>
      if c = 'u' then decode next (some n) (.digits 0 (some 0)) done cs
      else .error ⟨.unfinishedSurrogate, some (pos + 1)⟩
    | .digits seen value, pending =>
      let value := addDigit value c
      if seen + c.utf8Size < 4 then decode next pending (.digits (seen + c.utf8Size) value) done cs
      else match value, pending with
        | none, _ => .error ⟨.invalidEscape, some (pos + (4 - seen))⟩
        | some n, none =>
          if isTrailing n then .error ⟨.loneSurrogate, some next⟩
          else if isLeading n then decode next (some n) .plain done cs
          else decode next none .plain (Char.ofNat n :: done) cs
        | some n, some leading =>
          if isTrailing n then decode next none .plain (joinSurrogates leading n :: done) cs
          else .error ⟨.loneSurrogate, some next⟩

/-- Passes over the rest of a literal. -/
def passOver (pos : Nat) (spot : Spot) : List Char → Except Fault (Nat × List Char)
  | [] => .error ⟨.endOfString, none⟩
  | c :: cs =>
    let next := pos + c.utf8Size
    match spot with
    | .plain =>
      if c = '"' then .ok (next, cs)
      else if c = '\\' then passOver next .escape cs
      else if c.toNat < 0x20 then .error ⟨.controlCharacter, some pos⟩
      else passOver next .plain cs
    | .escape =>
      if c = 'u' then passOver next (.digits 0 (some 0)) cs
      else if (escaped? c).isSome then passOver next .plain cs
      else .error ⟨.invalidEscape, some (pos + 1)⟩
    | .digits seen value =>
      let value := addDigit value c
      if seen + c.utf8Size < 4 then passOver next (.digits (seen + c.utf8Size) value) cs
      else if value.isSome then passOver next .plain cs
      else .error ⟨.invalidEscape, some (pos + (4 - seen))⟩

/-- The two hexadecimal digits of a number below 256, small letters. -/
def hexByte (n : Nat) : List Char := [Nat.digitChar (n / 16), Nat.digitChar (n % 16)]

/-- A character as it stands in a literal. -/
def escapeChar (c : Char) : List Char :=
  if c = '"' then ['\\', '"']
  else if c = '\\' then ['\\', '\\']
  else if c = '\x08' then ['\\', 'b']
  else if c = '\x0c' then ['\\', 'f']
  else if c = '\n' then ['\\', 'n']
  else if c = '\r' then ['\\', 'r']
  else if c = '\t' then ['\\', 't']
  else if c.toNat < 0x20 then '\\' :: 'u' :: '0' :: '0' :: hexByte c.toNat
  else [c]

/-- The literal of a text. -/
def encode (s : String) : String :=
  String.ofList ('"' :: s.toList.flatMap escapeChar ++ ['"'])

end Json
end VhdlLowering
