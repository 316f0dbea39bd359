/-!
# Faults of a document

Reading a JSON document stops at the first fault. A fault has a cause and a place: the byte offset
up to which the document was read, or its end. The place is shown as a line and a column, the
column being the number of bytes read in the line.
-/

namespace VhdlLowering
namespace Json

/-- A value as it is named in a fault. -/
inductive Found where
  | null
  | bool (b : Bool)
  | integer (n : Int)
  /-- The text of a number that is not an integer. -/
  | decimal (text : String)
  /-- A string in its quoted form. -/
  | string (quoted : String)
  | list
  | object
deriving DecidableEq, Repr

def Found.describe : Found → String
  | null => "null"
  | bool b => "boolean `" ++ toString b ++ "`"
  | integer n => "integer `" ++ toString n ++ "`"
  | decimal text => "floating point `" ++ text ++ "`"
  | string quoted => "string " ++ quoted
  | list => "sequence"
  | object => "map"

inductive Cause where
  | endOfValue
  | endOfList
  | endOfObject
  | endOfString
  | expectedColon
  | expectedListCommaOrEnd
  | expectedObjectCommaOrEnd
  | expectedWord
  | expectedValue
  | invalidEscape
  | invalidNumber
  | numberOutOfRange
  | loneSurrogate
  | unfinishedSurrogate
  | controlCharacter
  | keyMustBeString
  | trailingComma
  | trailingCharacters
  | nestedTooDeep
  | wrongType (found : Found) (expected : String)
  | wrongValue (found : Found) (expected : String)
  | wrongLength (length : Nat) (expected : String)
  | missingField (name : String)
  | duplicateField (name : String)
deriving DecidableEq, Repr

namespace Cause

def message : Cause → String
  | endOfValue => "EOF while parsing a value"
  | endOfList => "EOF while parsing a list"
  | endOfObject => "EOF while parsing an object"
  | endOfString => "EOF while parsing a string"
  | expectedColon => "expected `:`"
  | expectedListCommaOrEnd => "expected `,` or `]`"
  | expectedObjectCommaOrEnd => "expected `,` or `\x7d`"
  | expectedWord => "expected ident"
  | expectedValue => "expected value"
  | invalidEscape => "invalid escape"
  | invalidNumber => "invalid number"
  | numberOutOfRange => "number out of range"
  | loneSurrogate => "lone leading surrogate in hex escape"
  | unfinishedSurrogate => "unexpected end of hex escape"
  | controlCharacter =>
    "control character (\\u0000-\\u001F) found while parsing a string"
  | keyMustBeString => "key must be a string"
  | trailingComma => "trailing comma"
  | trailingCharacters => "trailing characters"
  | nestedTooDeep => "recursion limit exceeded"
  | wrongType found expected => "invalid type: " ++ found.describe ++ ", expected " ++ expected
  | wrongValue found expected => "invalid value: " ++ found.describe ++ ", expected " ++ expected
  | wrongLength length expected =>
    "invalid length " ++ toString length ++ ", expected " ++ expected
  | missingField name => "missing field `" ++ name ++ "`"
  | duplicateField name => "duplicate field `" ++ name ++ "`"

end Cause

/-- The document ends too early, is no JSON, or is JSON of another form. -/
inductive Category where
  | unfinished
  | malformed
  | unfitting
deriving DecidableEq, Repr

def Cause.category : Cause → Category
  | endOfValue | endOfList | endOfObject | endOfString => .unfinished
  | wrongType .. | wrongValue .. | wrongLength .. | missingField _ | duplicateField _ => .unfitting
  | _ => .malformed

/-- A cause and a byte offset; without an offset the place is the end of the document. -/
structure Fault where
  cause : Cause
  place : Option Nat
deriving DecidableEq, Repr

/-- Line and column after the given number of bytes, for a text that starts at the given line and
column. -/
def advance (bytes : Nat) (line column : Nat) : List Char → Nat × Nat
  | [] => (line, column)
  | c :: cs =>
    if bytes < c.utf8Size then (line, column + bytes)
    else if c = '\n' then advance (bytes - 1) (line + 1) 0 cs
    else advance (bytes - c.utf8Size) line (column + c.utf8Size) cs

/-- A fault as it is shown to the user. -/
structure Report where
  cause : Cause
  line : Nat
  column : Nat
deriving DecidableEq, Repr

namespace Report

def category (r : Report) : Category := r.cause.category

def message (r : Report) : String :=
  r.cause.message ++ " at line " ++ toString r.line ++ " column " ++ toString r.column

end Report

/-- Locates a fault in its document. -/
def Fault.locate (f : Fault) (document : String) : Report :=
  let offset := f.place.getD document.utf8ByteSize
  let (line, column) := advance offset 1 0 document.toList
  ⟨f.cause, line, column⟩

end Json
end VhdlLowering
