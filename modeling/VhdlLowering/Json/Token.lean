import VhdlLowering.Json.Numeral
import VhdlLowering.Json.StringLiteral

/-!
# Tokens of a document

A document is cut into tokens: brackets, separators, words, numerals and string literals, with
blanks between them. What makes a token faulty depends on whether its value is wanted or the token
is passed over, so a numeral or literal carries the outcome of both. No token follows one that
cannot even be passed over.
-/

namespace VhdlLowering
namespace Json

inductive Word where
  | null
  | bool (b : Bool)
deriving DecidableEq, Repr

inductive Shape where
  | openBracket
  | closeBracket
  | openBrace
  | closeBrace
  | comma
  | colon
  | word (value : Except Fault Word)
  | numeral (value : Except Fault Number) (skipped : Except Fault Unit)
  | literal (value : Except Fault String) (skipped : Except Fault Unit)
  /-- A character that starts no token. -/
  | stray
deriving Repr

/-- A token and the byte offsets of its start and of the text after it. -/
structure Token where
  shape : Shape
  start : Nat
  stop : Nat
deriving Repr

namespace Token

/-- A fault that shows before the token is read. -/
def before (t : Token) (cause : Cause) : Fault := ⟨cause, some t.start⟩

/-- A fault that shows at the first byte of the token. -/
def atFirst (t : Token) (cause : Cause) : Fault := ⟨cause, some (t.start + 1)⟩

/-- A fault that shows when the token is read. -/
def after (t : Token) (cause : Cause) : Fault := ⟨cause, some t.stop⟩

end Token

/-- A fault that shows at the end of the document. -/
def Fault.atEnd (cause : Cause) : Fault := ⟨cause, none⟩

def isSpace (c : Char) : Bool := c == ' ' || c == '\n' || c == '\t' || c == '\r'

def mark? : Char → Option Shape
  | '[' => some .openBracket
  | ']' => some .closeBracket
  | '{' => some .openBrace
  | '}' => some .closeBrace
  | ',' => some .comma
  | ':' => some .colon
  | _ => none

/-- The word that a letter starts, with the letters that have to follow. -/
def word? : Char → Option (Word × List Char)
  | 'n' => some (.null, ['u', 'l', 'l'])
  | 't' => some (.bool true, ['r', 'u', 'e'])
  | 'f' => some (.bool false, ['a', 'l', 's', 'e'])
  | _ => none

/-- Reads the given letters. -/
def scanLetters (pos : Nat) : List Char → List Char → Except Fault (Nat × List Char)
  | [], cs => .ok (pos, cs)
  | _ :: _, [] => .error (.atEnd .endOfValue)
  | x :: xs, c :: cs =>
    if c = x then scanLetters (pos + 1) xs cs else .error ⟨.expectedWord, some (pos + 1)⟩

/-- Scans one token whose first character is `c`. The rest of the text is given unless the token
cannot be passed over. -/
def scanToken (pos : Nat) (c : Char) (cs : List Char) : Token × Option (List Char) :=
  if let some shape := mark? c then
    (⟨shape, pos, pos + 1⟩, some cs)
  else if let some (word, letters) := word? c then
    match scanLetters (pos + 1) letters cs with
    | .ok (stop, rest) => (⟨.word (.ok word), pos, stop⟩, some rest)
    | .error fault => (⟨.word (.error fault), pos, pos⟩, none)
  else if c = '"' then
    let value := (decode (pos + 1) none .plain [] cs).map Prod.fst
    match passOver (pos + 1) .plain cs with
    | .ok (stop, rest) => (⟨.literal value (.ok ()), pos, stop⟩, some rest)
    | .error fault => (⟨.literal value (.error fault), pos, pos⟩, none)
  else if c = '-' ∨ c.isDigit then
    match scanNumeral pos (c :: cs) with
    | .ok r => (⟨.numeral (r.value.value r.stop) (.ok ()), pos, r.stop⟩, some r.rest)
    | .error b => (⟨.numeral (.error b.valueFault) (.error b.skipFault), pos, pos⟩, none)
  else
    (⟨.stray, pos, pos⟩, none)

/-- Scans a text that starts at the given offset. Each step uses up a character, so fuel for every
character is enough. -/
def scanFrom : (fuel pos : Nat) → List Char → List Token
  | 0, _, _ => []
  | _, _, [] => []
  | fuel + 1, pos, c :: cs =>
    if isSpace c then scanFrom fuel (pos + 1) cs
    else
      match scanToken pos c cs with
      | (t, some rest) => t :: scanFrom fuel t.stop rest
      | (t, none) => [t]

/-- The tokens of a document. -/
def tokens (document : String) : List Token :=
  scanFrom document.length 0 document.toList

end Json
end VhdlLowering
