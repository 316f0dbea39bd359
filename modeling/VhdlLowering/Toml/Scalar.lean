import VhdlLowering.Json.StringLiteral
import VhdlLowering.Toml.Item

/-!
# Scalars of a TOML document

Strings, numbers, dates and times. A scanner takes its part off the front of a text; what may follow
is not its concern. Of numbers and moments only the form and the range are checked.
-/

namespace VhdlLowering
namespace Toml

/-- Takes a value off the front of a text. -/
abbrev Scanner (α : Type) := List Char → Option (α × List Char)

def isBlank (c : Char) : Bool := c == ' ' || c == '\t'

/-- Characters that may stand in a comment, and in a string apart from its own marks. -/
def isTextChar (c : Char) : Bool := c == '\t' || (0x20 ≤ c.toNat && c.toNat != 0x7F)

def quoteMark : Char := '"'

def apostrophe : Char := '\x27'

/-- The character that a letter after a backslash stands for. -/
def escaped? : Char → Option Char
  | 'b' => some '\x08'
  | 't' => some '\t'
  | 'n' => some '\n'
  | 'f' => some '\x0c'
  | 'r' => some '\r'
  | '"' => some '"'
  | '\\' => some '\\'
  | _ => none

/-- The character with the number given by hexadecimal digits. -/
def charOfDigits? (ds : List Char) : Option Char := do
  let n ← ds.foldlM (fun n c => (Json.hexDigit? c).map (16 * n + ·)) 0
  if n.isValidChar then some (Char.ofNat n) else none

/-- Scans what follows a backslash. -/
def scanEscape : Scanner Char
  | 'u' :: cs => if cs.length < 4 then none else (charOfDigits? (cs.take 4)).map (·, cs.drop 4)
  | 'U' :: cs => if cs.length < 8 then none else (charOfDigits? (cs.take 8)).map (·, cs.drop 8)
  | c :: cs => (escaped? c).map (·, cs)
  | [] => none

/-- The rest of a string in quotes. Fuel for every character is enough. -/
def scanQuoted : (fuel : Nat) → Scanner (List Char)
  | 0, _ => none
  | _, [] => none
  | fuel + 1, c :: cs =>
    if c = quoteMark then some ([], cs)
    else if c = '\\' then do
      let (d, cs) ← scanEscape cs
      let (ds, cs) ← scanQuoted fuel cs
      return (d :: ds, cs)
    else if isTextChar c then do
      let (ds, cs) ← scanQuoted fuel cs
      return (c :: ds, cs)
    else none

/-- The rest of a string in apostrophes. -/
def scanLiteral (cs : List Char) : Option (List Char × List Char) :=
  let inside := cs.takeWhile fun c => isTextChar c && c != apostrophe
  match cs.drop inside.length with
  | c :: rest => if c = apostrophe then some (inside, rest) else none
  | [] => none

/-- The text after a line feed, which a carriage return may precede. -/
def afterNewline? : List Char → Option (List Char)
  | '\n' :: cs => some cs
  | '\r' :: '\n' :: cs => some cs
  | _ => none

/-- Skips blanks and line feeds. Fuel for every character is enough. -/
def skipSpace : (fuel : Nat) → List Char → List Char
  | 0, cs => cs
  | fuel + 1, cs =>
    match afterNewline? (cs.dropWhile isBlank) with
    | some rest => skipSpace fuel rest
    | none => cs.dropWhile isBlank

/-- Skips what a backslash at the end of a line joins. -/
def joinLines? (cs : List Char) : Option (List Char) :=
  (afterNewline? (cs.dropWhile isBlank)).map fun rest => skipSpace rest.length rest

/-- The rest of a string over several lines, closed by three marks. One or two further marks in front
of the closing ones belong to the string. Fuel for every character is enough. -/
def scanLines (mark : Char) (escapes : Bool) : (fuel : Nat) → Scanner (List Char)
  | 0, _ => none
  | _, [] => none
  | fuel + 1, c :: cs =>
    let marks := ((c :: cs).takeWhile (· == mark)).length
    if 3 ≤ marks then
      if marks ≤ 5 then some (List.replicate (marks - 3) mark, (c :: cs).drop marks) else none
    else if c = '\\' ∧ escapes then
      match joinLines? cs with
      | some cs => scanLines mark escapes fuel cs
      | none => do
        let (d, cs) ← scanEscape cs
        let (ds, cs) ← scanLines mark escapes fuel cs
        return (d :: ds, cs)
    else match afterNewline? (c :: cs) with
      | some cs => do
        let (ds, cs) ← scanLines mark escapes fuel cs
        return ('\n' :: ds, cs)
      | none =>
        if isTextChar c then do
          let (ds, cs) ← scanLines mark escapes fuel cs
          return (c :: ds, cs)
        else none

/-- A string behind its first mark. -/
def scanText (mark : Char) (cs : List Char) : Option (List Char × List Char) :=
  match cs with
  | a :: b :: rest =>
    if a = mark ∧ b = mark then
      let rest := (afterNewline? rest).getD rest
      scanLines mark (mark == quoteMark) (rest.length + 1) rest
    else scanLine cs
  | _ => scanLine cs
where
  scanLine (cs : List Char) : Option (List Char × List Char) :=
    if mark = quoteMark then scanQuoted (cs.length + 1) cs else scanLiteral cs

/-- Digits with single bars between them. -/
def scanDigits (isDigit : Char → Bool) : List Char → Option (List Char × List Char)
  | [] => none
  | c :: cs =>
    if isDigit c then
      match cs with
      | '_' :: rest => (scanDigits isDigit rest).map fun (ds, r) => (c :: ds, r)
      | d :: rest =>
        if isDigit d then (scanDigits isDigit (d :: rest)).map fun (ds, r) => (c :: ds, r)
        else some ([c], d :: rest)
      | [] => some ([c], [])
    else none

def valueOf (base : Nat) (ds : List Char) : Nat :=
  ds.foldl (fun n c => base * n + (Json.hexDigit? c).getD 0) 0

/-- Whether a character is a digit to a base up to sixteen. -/
def isDigitOf (base : Nat) (c : Char) : Bool := (Json.hexDigit? c).any (· < base)

/-- A number to another base, behind the letter of the base. -/
def scanRadix (base : Nat) (cs : List Char) : Option (Item × List Char) := do
  let (ds, cs) ← scanDigits (isDigitOf base) cs
  if valueOf base ds < UInt64.size / 2 then some (.number, cs) else none

/-- The whole part of a decimal number: a zero alone, or digits that do not start with zero. -/
def scanWhole : Scanner (List Char)
  | '0' :: cs => some (['0'], cs)
  | cs => scanDigits Char.isDigit cs

/-- A fraction behind the whole part. -/
def scanFraction (cs : List Char) : Option (List Char × List Char) :=
  match cs with
  | '.' :: rest => scanDigits Char.isDigit rest
  | _ => some ([], cs)

/-- An exponent: whether it is negative, and its digits. -/
def scanExponent (cs : List Char) : Option (Option (Bool × List Char) × List Char) :=
  match cs with
  | [] => some (none, cs)
  | c :: rest =>
    if c = 'e' ∨ c = 'E' then
      match rest with
      | '-' :: rest => (scanDigits Char.isDigit rest).map fun (ds, r) => (some (true, ds), r)
      | '+' :: rest => (scanDigits Char.isDigit rest).map fun (ds, r) => (some (false, ds), r)
      | _ => (scanDigits Char.isDigit rest).map fun (ds, r) => (some (false, ds), r)
    else some (none, cs)

/-- Whether `digits * 10 ^ power` rounds to an infinite double. -/
def overflows (digits : List Char) (power : Int) : Bool :=
  let n := valueOf 10 digits
  if n = 0 then false
  else if (400 : Int) < power then true
  else if power + Int.ofNat digits.length < 0 then false
  else (Nat.pow 2 54 - 1) * Nat.pow 2 970 * Nat.pow 10 (-power).toNat ≤ n * Nat.pow 10 power.toNat

/-- A decimal number behind its sign. A whole number fits in 64 bits, and a positive double is
finite. -/
def scanDecimal (negative : Bool) (cs : List Char) : Option (Item × List Char) := do
  let (whole, afterWhole) ← scanWhole cs
  let (fraction, cs) ← scanFraction afterWhole
  let (exponent, rest) ← scanExponent cs
  if fraction.isEmpty ∧ exponent.isNone then
    let n := valueOf 10 whole
    if n < UInt64.size / 2 ∨ (negative ∧ n = UInt64.size / 2) then some (.number, rest) else none
  else
    let power : Int := match exponent with
      | none => 0
      | some (true, ds) => -Int.ofNat (valueOf 10 ds)
      | some (false, ds) => Int.ofNat (valueOf 10 ds)
    if ¬negative ∧ overflows (whole ++ fraction) (power - Int.ofNat fraction.length) then none
    else some (.number, rest)

/-- Takes a word off the front of a text. -/
def afterWord? (word : String) (cs : List Char) : Option (List Char) :=
  if word.toList.isPrefixOf cs then some (cs.drop word.length) else none

/-- An infinite double or no number at all, behind its sign. -/
def scanSpecial (cs : List Char) : Option (Item × List Char) :=
  ((afterWord? "inf" cs).or (afterWord? "nan" cs)).map (.number, ·)

def scanNumber : Scanner Item
  | '0' :: 'x' :: cs => scanRadix 16 cs
  | '0' :: 'o' :: cs => scanRadix 8 cs
  | '0' :: 'b' :: cs => scanRadix 2 cs
  | '-' :: cs => (scanSpecial cs).or (scanDecimal true cs)
  | '+' :: cs => (scanSpecial cs).or (scanDecimal false cs)
  | cs => (scanSpecial cs).or (scanDecimal false cs)

/-- The value of the given number of digits. -/
def scanFixed (width : Nat) (cs : List Char) : Option (Nat × List Char) :=
  let ds := cs.take width
  if ds.length = width ∧ ds.all Char.isDigit then some (valueOf 10 ds, cs.drop width) else none

/-- A number of two digits in a range. -/
def scanTwo (low high : Nat) (cs : List Char) : Option (Nat × List Char) := do
  let (n, cs) ← scanFixed 2 cs
  if low ≤ n ∧ n ≤ high then some (n, cs) else none

def scanChar (x : Char) : List Char → Option (List Char)
  | [] => none
  | c :: cs => if c = x then some cs else none

def daysOf (year month : Nat) : Nat :=
  if month = 2 then
    if year % 4 = 0 ∧ (year % 100 ≠ 0 ∨ year % 400 = 0) then 29 else 28
  else if month = 4 ∨ month = 6 ∨ month = 9 ∨ month = 11 then 30
  else 31

def scanDate (cs : List Char) : Option (List Char) := do
  let (year, cs) ← scanFixed 4 cs
  let (month, cs) ← scanTwo 1 12 (← scanChar '-' cs)
  let (day, cs) ← scanTwo 1 31 (← scanChar '-' cs)
  if day ≤ daysOf year month then some cs else none

/-- Hours, minutes, seconds and a fraction of a second. -/
def scanTime (cs : List Char) : Option (List Char) := do
  let (_, cs) ← scanTwo 0 23 cs
  let (_, cs) ← scanTwo 0 59 (← scanChar ':' cs)
  let (_, cs) ← scanTwo 0 60 (← scanChar ':' cs)
  match cs with
  | '.' :: rest => if (rest.head?.any Char.isDigit) then some (rest.dropWhile Char.isDigit) else none
  | _ => some cs

/-- The distance from world time, which may be left out. -/
def scanOffset (cs : List Char) : Option (List Char) :=
  match cs with
  | [] => some cs
  | c :: rest =>
    if c = 'Z' ∨ c = 'z' then some rest
    else if c = '+' ∨ c = '-' then do
      let (_, rest) ← scanTwo 0 23 rest
      let (_, rest) ← scanTwo 0 59 (← scanChar ':' rest)
      some rest
    else some cs

/-- A date with or without a time, or a time. -/
def scanMoment (cs : List Char) : Option (Item × List Char) :=
  match scanDate cs with
  | some cs =>
    match cs with
    | [] => some (.moment, cs)
    | c :: rest =>
      if c = 'T' ∨ c = 't' ∨ c = ' ' then
        match scanTime rest with
        | some rest => (scanOffset rest).map (.moment, ·)
        | none => some (.moment, cs)
      else some (.moment, cs)
  | none => (scanTime cs).map (.moment, ·)

def scanBoolean (cs : List Char) : Option (Item × List Char) :=
  ((afterWord? "true" cs).map (.boolean true, ·)).or
    ((afterWord? "false" cs).map (.boolean false, ·))

def scanScalar (cs : List Char) : Option (Item × List Char) :=
  match cs with
  | [] => none
  | c :: rest =>
    if c = quoteMark ∨ c = apostrophe then
      (scanText c rest).map fun (s, rest) => (.text (String.ofList s), rest)
    else ((scanBoolean cs).or (scanMoment cs)).or (scanNumber cs)

end Toml
end VhdlLowering
