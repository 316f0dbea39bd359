import VhdlLowering.Json.Token

/-!
# Values as they are written

A document is written in lexemes: marks, words, numerals and string literals, with any blanks between
them. The same text can be written as many literals, since a character may stand for itself or be
escaped in several ways. What a literal spells is said here without reference to a reader.
-/

namespace VhdlLowering
namespace Json

/-- A hexadecimal digit, with a small or a capital letter. -/
structure HexDigit where
  value : Fin 16
  capital : Bool
deriving DecidableEq, Repr

def HexDigit.char (d : HexDigit) : Char :=
  if d.capital then (Nat.digitChar d.value).toUpper else Nat.digitChar d.value

/-- A number of sixteen bits in four digits. -/
structure CodeUnit where
  first : HexDigit
  second : HexDigit
  third : HexDigit
  fourth : HexDigit
deriving DecidableEq, Repr

namespace CodeUnit

def value (u : CodeUnit) : Nat :=
  16 * (16 * (16 * u.first.value + u.second.value) + u.third.value) + u.fourth.value

def text (u : CodeUnit) : List Char := [u.first.char, u.second.char, u.third.char, u.fourth.char]

/-- The number in four digits, all with small letters or all with capital ones. -/
def ofNat (n : Nat) (capital : Bool) : CodeUnit :=
  ⟨digit (n / 0x1000), digit (n / 0x100), digit (n / 0x10), digit n⟩
where
  digit (d : Nat) : HexDigit := ⟨⟨d % 16, Nat.mod_lt d (Nat.succ_pos 15)⟩, capital⟩

end CodeUnit

/-- The characters that have an escape of one letter. -/
inductive Escape where
  | quote
  | backslash
  | slash
  | backspace
  | formFeed
  | lineFeed
  | carriageReturn
  | tab
deriving DecidableEq, Repr

namespace Escape

/-- The character that stands behind the backslash. -/
def letter : Escape → Char
  | quote => '"'
  | backslash => '\\'
  | slash => '/'
  | backspace => 'b'
  | formFeed => 'f'
  | lineFeed => 'n'
  | carriageReturn => 'r'
  | tab => 't'

def char : Escape → Char
  | quote => '"'
  | backslash => '\\'
  | slash => '/'
  | backspace => '\x08'
  | formFeed => '\x0c'
  | lineFeed => '\n'
  | carriageReturn => '\r'
  | tab => '\t'

end Escape

/-- What a literal is put together from. -/
inductive Piece where
  /-- A character that stands for itself. -/
  | plain (c : Char) (hquote : c ≠ '"') (hbackslash : c ≠ '\\') (hcontrol : ¬c.toNat < 0x20)
  | escape (e : Escape)
  | unit (u : CodeUnit)
deriving Repr

def Piece.text : Piece → List Char
  | plain c _ _ _ => [c]
  | escape e => ['\\', e.letter]
  | unit u => '\\' :: 'u' :: u.text

/-- A string literal. -/
structure Literal where
  pieces : List Piece
deriving Repr

/-- The characters that pieces stand for. A character beyond sixteen bits takes two code units, and half
of such a pair stands for nothing. -/
inductive Spells : List Piece → List Char → Prop
  | nil : Spells [] []
  | plain {c : Char} {hquote : c ≠ '"'} {hbackslash : c ≠ '\\'} {hcontrol : ¬c.toNat < 0x20}
      {ps : List Piece} {cs : List Char} (h : Spells ps cs) :
      Spells (.plain c hquote hbackslash hcontrol :: ps) (c :: cs)
  | escape {e : Escape} {ps : List Piece} {cs : List Char} (h : Spells ps cs) :
      Spells (.escape e :: ps) (e.char :: cs)
  | unit {u : CodeUnit} {c : Char} {ps : List Piece} {cs : List Char} (hc : c.toNat = u.value)
      (h : Spells ps cs) : Spells (.unit u :: ps) (c :: cs)
  | pair {u v : CodeUnit} {c : Char} {ps : List Piece} {cs : List Char}
      (hu : 0xD800 ≤ u.value ∧ u.value < 0xDC00) (hv : 0xDC00 ≤ v.value ∧ v.value < 0xE000)
      (hc : c.toNat = 0x10000 + (u.value - 0xD800) * 0x400 + (v.value - 0xDC00))
      (h : Spells ps cs) : Spells (.unit u :: .unit v :: ps) (c :: cs)

/-- The piece that a character is written as: it stands for itself where it may. -/
def Piece.ofChar (c : Char) : Piece :=
  if hquote : c = '"' then .escape .quote
  else if hbackslash : c = '\\' then .escape .backslash
  else if c = '\x08' then .escape .backspace
  else if c = '\x0c' then .escape .formFeed
  else if c = '\n' then .escape .lineFeed
  else if c = '\r' then .escape .carriageReturn
  else if c = '\t' then .escape .tab
  else if hcontrol : c.toNat < 0x20 then
    .unit ⟨⟨0, false⟩, ⟨0, false⟩, ⟨⟨c.toNat / 16, by omega⟩, false⟩,
      ⟨⟨c.toNat % 16, by omega⟩, false⟩⟩
  else .plain c hquote hbackslash hcontrol

namespace Literal

/-- The literal that a text is written as. -/
def ofString (s : String) : Literal := ⟨s.toList.map Piece.ofChar⟩

def text (l : Literal) : List Char := '"' :: (l.pieces.flatMap Piece.text ++ ['"'])

def Spells (l : Literal) (s : String) : Prop := Json.Spells l.pieces s.toList

end Literal

def digitText (ds : List (Fin 10)) : List Char := ds.map fun d => Nat.digitChar d.val

/-- An exponent, with its letter, its sign if it has one, and at least one digit. -/
structure Exponent where
  capital : Bool
  sign : Option Bool
  first : Fin 10
  more : List (Fin 10)
deriving DecidableEq, Repr

namespace Exponent

def signText : Option Bool → List Char
  | none => []
  | some true => ['-']
  | some false => ['+']

def text (e : Exponent) : List Char :=
  (if e.capital then 'E' else 'e') :: (signText e.sign ++ digitText (e.first :: e.more))

end Exponent

/-- A numeral. The whole part is written without leading zeros, and a fraction without digits is not
written. -/
structure WrittenNumeral where
  negative : Bool
  whole : Nat
  fraction : List (Fin 10)
  exponent : Option Exponent
deriving DecidableEq, Repr

namespace WrittenNumeral

/-- A natural number. -/
def natural (n : Nat) : WrittenNumeral := ⟨false, n, [], none⟩

def signText (negative : Bool) : List Char := if negative then ['-'] else []

def fractionText : List (Fin 10) → List Char
  | [] => []
  | d :: ds => '.' :: digitText (d :: ds)

def exponentText : Option Exponent → List Char
  | none => []
  | some e => e.text

def text (x : WrittenNumeral) : List Char :=
  signText x.negative ++
    (Nat.toDigits 10 x.whole ++ (fractionText x.fraction ++ exponentText x.exponent))

end WrittenNumeral

inductive Mark where
  | openBracket
  | closeBracket
  | openBrace
  | closeBrace
  | comma
  | colon
deriving DecidableEq, Repr

def Mark.char : Mark → Char
  | openBracket => '['
  | closeBracket => ']'
  | openBrace => '{'
  | closeBrace => '}'
  | comma => ','
  | colon => ':'

def Word.text : Word → List Char
  | null => ['n', 'u', 'l', 'l']
  | bool true => ['t', 'r', 'u', 'e']
  | bool false => ['f', 'a', 'l', 's', 'e']

inductive Lexeme where
  | mark (m : Mark)
  | word (w : Word)
  | numeral (x : WrittenNumeral)
  | literal (l : Literal)
deriving Repr

def Lexeme.text : Lexeme → List Char
  | mark m => [m.char]
  | word w => w.text
  | numeral x => x.text
  | literal l => l.text

inductive Blank where
  | space
  | lineFeed
  | tab
  | carriageReturn
deriving DecidableEq, Repr

def Blank.char : Blank → Char
  | space => ' '
  | lineFeed => '\n'
  | tab => '\t'
  | carriageReturn => '\r'

/-- Lexemes with blanks in front of each one and behind the last one. -/
def spread (gaps : Nat → List Blank) : List Lexeme → List Char
  | [] => (gaps 0).map Blank.char
  | l :: ls => (gaps 0).map Blank.char ++ (l.text ++ spread (fun i => gaps (i + 1)) ls)

/-- A value. The fields of an object may have any keys, also equal ones, and any order. -/
inductive Value where
  | word (w : Word)
  | numeral (x : WrittenNumeral)
  | literal (l : Literal)
  | list (items : List Value)
  | object (members : List (Literal × Value))
deriving Repr

namespace Value

/-- The comma in front of an item or a member, unless it is the first one. -/
def separator (first : Bool) : List Lexeme := if first then [] else [.mark .comma]

mutual

def lexemes : Value → List Lexeme
  | word w => [.word w]
  | numeral x => [.numeral x]
  | literal l => [.literal l]
  | list vs => .mark .openBracket :: (itemLexemes true vs ++ [.mark .closeBracket])
  | object ms => .mark .openBrace :: (memberLexemes true ms ++ [.mark .closeBrace])

def itemLexemes (first : Bool) : List Value → List Lexeme
  | [] => []
  | v :: vs => separator first ++ (v.lexemes ++ itemLexemes false vs)

def memberLexemes (first : Bool) : List (Literal × Value) → List Lexeme
  | [] => []
  | (key, v) :: ms =>
    separator first ++ (.literal key :: .mark .colon :: (v.lexemes ++ memberLexemes false ms))

end

/-- A document that holds the value, with the given blanks. -/
def document (gaps : Nat → List Blank) (v : Value) : String := String.ofList (spread gaps v.lexemes)

end Value

end Json
end VhdlLowering
