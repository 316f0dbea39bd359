import VhdlLowering.Json.Token

/-!
# Passing over a value

A value that nobody wants is passed over token by token. Its brackets are kept on a stack, so there
is no limit on their nesting, and its strings and numerals are only checked for their form.
-/

namespace VhdlLowering
namespace Json

inductive Bracket where
  | list
  | object
deriving DecidableEq, Repr

namespace Bracket

def endCause : Bracket → Cause
  | list => .endOfList
  | object => .endOfObject

def separatorCause : Bracket → Cause
  | list => .expectedListCommaOrEnd
  | object => .expectedObjectCommaOrEnd

def closedBy (b : Bracket) (s : Shape) : Bool :=
  match b, s with
  | list, .closeBracket => true
  | object, .closeBrace => true
  | _, _ => false

end Bracket

/-- What may come next inside the open brackets, innermost first. -/
inductive Awaited where
  | value (brackets : List Bracket)
  /-- An item, or the end of the bracket that was opened last. -/
  | firstItem (innermost : Bracket) (outer : List Bracket)
  /-- A comma, or the end of the innermost bracket. -/
  | separator (innermost : Bracket) (outer : List Bracket)
  | key (outer : List Bracket)
  | colon (outer : List Bracket)
  /-- Nothing: the value is complete. -/
  | nothing
deriving DecidableEq, Repr

namespace Awaited

/-- The state after a value or a bracket is complete. -/
def ofComplete : List Bracket → Awaited
  | [] => nothing
  | b :: bs => separator b bs

/-- The state in front of an item of a bracket. -/
def ofItem (innermost : Bracket) (outer : List Bracket) : Awaited :=
  match innermost with
  | .list => value (.list :: outer)
  | .object => key outer

/-- One token where a value is awaited. -/
def stepValue (bs : List Bracket) (t : Token) : Except Fault Awaited :=
  match t.shape with
  | .openBracket => .ok (firstItem .list bs)
  | .openBrace => .ok (firstItem .object bs)
  | .word read => read.map fun _ => ofComplete bs
  | .numeral _ skipped => skipped.map fun _ => ofComplete bs
  | .literal _ skipped => skipped.map fun _ => ofComplete bs
  | _ => .error (t.atFirst .expectedValue)

/-- One token where the key of a field is awaited. -/
def stepKey (bs : List Bracket) (t : Token) : Except Fault Awaited :=
  match t.shape with
  | .literal _ skipped => skipped.map fun _ => colon bs
  | _ => .error (t.atFirst .keyMustBeString)

def step (a : Awaited) (t : Token) : Except Fault Awaited :=
  match a with
  | value bs => stepValue bs t
  | firstItem b bs =>
    if b.closedBy t.shape then .ok (ofComplete bs)
    else match b with
      | .list => stepValue (.list :: bs) t
      | .object => stepKey bs t
  | separator b bs =>
    if b.closedBy t.shape then .ok (ofComplete bs)
    else match t.shape with
      | .comma => .ok (ofItem b bs)
      | _ => .error (t.atFirst b.separatorCause)
  | key bs => stepKey bs t
  | colon bs =>
    match t.shape with
    | .colon => .ok (value (.object :: bs))
    | _ => .error (t.atFirst .expectedColon)
  | nothing => .ok nothing

/-- The fault if the document ends here. -/
def endFault : Awaited → Fault
  | value _ => .atEnd .endOfValue
  | firstItem b _ | separator b _ => .atEnd b.endCause
  | key _ | colon _ => .atEnd .endOfObject
  | nothing => .atEnd .endOfValue

/-- Reads tokens until nothing more is awaited. -/
def run (a : Awaited) (ts : List Token) : Except Fault (List Token) :=
  match a, ts with
  | nothing, ts => .ok ts
  | a, [] => .error a.endFault
  | a, t :: ts => do (← a.step t).run ts

end Awaited

/-- Passes over one value. -/
def skipValue (ts : List Token) : Except Fault (List Token) := (Awaited.value []).run ts

end Json
end VhdlLowering
