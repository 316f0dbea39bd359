import VhdlLowering.Json.Skip

/-!
# Reading values of a known form

A reader takes a value off the front of a list of tokens. It expects a value of one form and names
that form in the fault if it meets another. Records are written as objects, with their fields in any
order, or as lists of their fields.
-/

namespace VhdlLowering
namespace Json

/-- Reads a value and gives the tokens after it. -/
abbrev Reader (α : Type) := List Token → Except Fault (α × List Token)

/-- The fault of a value that has not the expected form. The quoting of strings is a parameter. -/
def wrongType (quote : String → String) (expected : String) : List Token → Fault
  | [] => .atEnd .endOfValue
  | t :: _ =>
    match t.shape with
    | .openBracket => t.before (.wrongType .list expected)
    | .openBrace => t.before (.wrongType .object expected)
    | .word (.ok .null) => t.after (.wrongType .null expected)
    | .word (.ok (.bool b)) => t.after (.wrongType (.bool b) expected)
    | .numeral (.ok n) _ => t.after (.wrongType n.describe expected)
    | .literal (.ok s) _ => t.after (.wrongType (.string (quote s)) expected)
    | .word (.error fault) | .numeral (.error fault) _ | .literal (.error fault) _ => fault
    | .closeBracket | .closeBrace | .comma | .colon | .stray => t.atFirst .expectedValue

/-- A string. -/
def readString (quote : String → String) : Reader String := fun ts =>
  match ts with
  | ⟨.literal (.ok s) _, _, _⟩ :: rest => .ok (s, rest)
  | _ => .error (wrongType quote "a string" ts)

/-- A natural number that fits in 32 bits. -/
def readWord32 (quote : String → String) : Reader UInt32 := fun ts =>
  match ts with
  | ⟨.numeral (.ok (.natural n)) _, _, stop⟩ :: rest =>
    if n < UInt32.size then .ok (n.toUInt32, rest)
    else .error ⟨.wrongValue (.integer (Int.ofNat n)) "u32", some stop⟩
  | ⟨.numeral (.ok (.negative n)) _, _, stop⟩ :: _ =>
    .error ⟨.wrongValue (.integer n) "u32", some stop⟩
  | _ => .error (wrongType quote "u32" ts)

/-- How deep the brackets of a document may be nested. Every bracket takes one from the depth that
remains, and a bracket that takes the last is a fault. -/
def depthLimit : Nat := 128

/-- Reads what is in a bracket, if there is any depth left in it. -/
def enter {α : Type} (bracket : Token) (left : Nat) (inside : Except Fault α) : Except Fault α :=
  if left = 0 then .error (bracket.atFirst .nestedTooDeep) else inside

/-- Goes to the next element of a list; none at its closing bracket, which is left in place. -/
def nextElement (first : Bool) : List Token → Except Fault (Option (List Token))
  | [] => .error (.atEnd .endOfList)
  | t :: ts =>
    match t.shape, first with
    | .closeBracket, _ => .ok none
    | .comma, false =>
      match ts with
      | [] => .error (.atEnd .endOfValue)
      | u :: _ =>
        match u.shape with
        | .closeBracket => .error (u.atFirst .trailingComma)
        | _ => .ok (some ts)
    | _, true => .ok (some (t :: ts))
    | _, false => .error (t.atFirst .expectedListCommaOrEnd)

/-- The elements of a list and the tokens after its closing bracket. Fuel for every token is
enough. -/
def readElements {α : Type} (element : Reader α) : (fuel : Nat) → (first : Bool) → Reader (List α)
  | 0, _, _ => .error (.atEnd .endOfList)
  | fuel + 1, first, ts => do
    match ← nextElement first ts with
    | none => return ([], ts.drop 1)
    | some ts =>
      let (x, ts) ← element ts
      let (xs, ts) ← readElements element fuel false ts
      return (x :: xs, ts)

/-- A list; `left` is the depth that is left in its bracket. -/
def readList {α : Type} (quote : String → String) (left : Nat) (element : Reader α) :
    Reader (List α) := fun ts =>
  match ts with
  | [] => .error (wrongType quote "a sequence" ts)
  | t :: rest =>
    match t.shape with
    | .openBracket => enter t left (readElements element (rest.length + 1) true rest)
    | _ => .error (wrongType quote "a sequence" ts)

/-- The end of a list of known length. -/
def closeList : List Token → Except Fault (List Token)
  | [] => .error (.atEnd .endOfList)
  | t :: ts =>
    match t.shape with
    | .closeBracket => .ok ts
    | .comma =>
      match ts with
      | [] => .error (.atEnd .trailingCharacters)
      | u :: _ =>
        match u.shape with
        | .closeBracket => .error (u.atFirst .trailingComma)
        | _ => .error (u.atFirst .trailingCharacters)
    | _ => .error (t.atFirst .trailingCharacters)

/-- The offset of a fault that shows once the tokens in front are read: after the closing bracket
if that comes first, otherwise before the next token. -/
def closing (isClosing : Shape → Bool) : List Token → Option Nat
  | [] => none
  | t :: _ => some (if isClosing t.shape then t.stop else t.start)

/-- An element of a list that is too short without it: the list ends after `index` elements. -/
def requiredElement {α : Type} (element : Reader α) (index : Nat) (expected : String) : Reader α :=
  fun ts => do
    match ← nextElement (index == 0) ts with
    | none =>
      .error ⟨.wrongLength index expected, closing (Bracket.closedBy .list) ts⟩
    | some ts => element ts

/-- An element of a list that may end before it. -/
def optionalElement {α : Type} (element : Reader α) (default : α) : Reader α := fun ts => do
  match ← nextElement false ts with
  | none => return (default, ts)
  | some ts => element ts

/-- Goes to the key of the next field of an object; none at its closing brace, which is left in
place. -/
def nextKey (first : Bool) : List Token → Except Fault (Option (String × List Token))
  | [] => .error (.atEnd .endOfObject)
  | t :: ts =>
    match t.shape, first with
    | .closeBrace, _ => .ok none
    | .comma, false =>
      match ts with
      | [] => .error (.atEnd .endOfValue)
      | u :: us =>
        match u.shape with
        | .closeBrace => .error (u.atFirst .trailingComma)
        | _ => key u us
    | _, true => key t ts
    | _, false => .error (t.atFirst .expectedObjectCommaOrEnd)
where
  key (t : Token) (ts : List Token) : Except Fault (Option (String × List Token)) :=
    match t.shape with
    | .literal value _ => value.map fun s => some (s, ts)
    | _ => .error (t.atFirst .keyMustBeString)

/-- The tokens after the colon of a field. -/
def afterColon : List Token → Except Fault (List Token)
  | [] => .error (.atEnd .endOfObject)
  | t :: ts =>
    match t.shape with
    | .colon => .ok ts
    | _ => .error (t.atFirst .expectedColon)

/-- The fields of an object. A field changes what is known of the object: `field` is given the key
and reads on from behind the key. The answer also has the closing brace and the tokens after it.
Fuel for every token is enough. -/
def readFields {σ : Type} (field : String → σ → List Token → Except Fault (σ × List Token)) :
    (fuel : Nat) → (first : Bool) → σ → List Token → Except Fault (σ × List Token)
  | 0, _, _, _ => .error (.atEnd .endOfObject)
  | fuel + 1, first, known, ts => do
    match ← nextKey first ts with
    | none => return (known, ts)
    | some (key, ts) =>
      let (known, ts) ← field key known ts
      readFields field fuel false known ts

/-- Reads the value of a field that must not be given twice. -/
def newField {α : Type} (name : String) (old : Option α) (value : Reader α) : Reader (Option α) :=
  fun ts => do
    if old.isSome then
      .error ⟨.duplicateField name, closing (Bracket.closedBy .object) ts⟩
    else
      let (x, ts) ← value (← afterColon ts)
      return (some x, ts)

/-- Passes over a field. -/
def skipField (ts : List Token) : Except Fault (List Token) := do skipValue (← afterColon ts)

/-- The value of a field that has to be there; `ts` starts with the closing brace. -/
def requireField {α : Type} (name : String) (value : Option α) (ts : List Token) : Except Fault α :=
  match value with
  | some x => .ok x
  | none => .error ⟨.missingField name, closing (Bracket.closedBy .object) ts⟩

/-- Reads a document that holds one value. -/
def readDocument {α : Type} (value : Reader α) (document : String) : Except Report α :=
  let outcome : Except Fault α := do
    let (x, rest) ← value (tokens document)
    match rest with
    | [] => return x
    | t :: _ => .error (t.atFirst .trailingCharacters)
  outcome.mapError fun fault => fault.locate document

end Json
end VhdlLowering
