import VhdlLowering.Json.Reader
import VhdlLowering.Syntax.Node
import VhdlLowering.Text.Quoted

/-!
# Trees as documents

The JSON form of a node has four fields: its kind, its span, its text and its children. The text and
the children may be left out. The brackets of nodes, of spans and of lists of children all count
against the depth to which brackets may be nested.
-/

namespace VhdlLowering

open Json

/-- What is known of a span while its fields are read. -/
structure SpanFields where
  start : Option UInt32
  stop : Option UInt32

namespace SpanFields

def field (key : String) (known : SpanFields) (ts : List Token) :
    Except Fault (SpanFields × List Token) := do
  if key = "start" then
    let (x, ts) ← newField key known.start (readWord32 Text.quote) ts
    return ({ known with start := x }, ts)
  else if key = "end" then
    let (x, ts) ← newField key known.stop (readWord32 Text.quote) ts
    return ({ known with stop := x }, ts)
  else
    return (known, ← skipField ts)

def finish (known : SpanFields) (ts : List Token) : Except Fault Span := do
  let start ← requireField "start" known.start ts
  let stop ← requireField "end" known.stop ts
  return ⟨start, stop⟩

end SpanFields

namespace Span

def lengthText : String := "struct Span with 2 elements"

/-- The list form of a span, behind its bracket. -/
def readElements : Reader Span := fun ts => do
  let (start, ts) ← requiredElement (readWord32 Text.quote) 0 lengthText ts
  let (stop, ts) ← requiredElement (readWord32 Text.quote) 1 lengthText ts
  return (⟨start, stop⟩, ← closeList ts)

/-- The object form of a span, behind its brace. -/
def readObject : Reader Span := fun ts => do
  let (known, ts) ← readFields SpanFields.field (ts.length + 1) true ⟨none, none⟩ ts
  return (← known.finish ts, ts.drop 1)

/-- A span; `depth` is what remains of the depth in front of its bracket. -/
def read (depth : Nat) : Reader Span := fun ts =>
  match ts with
  | [] => .error (wrongType Text.quote "struct Span" ts)
  | t :: rest =>
    match t.shape with
    | .openBracket => enter t (depth - 1) (readElements rest)
    | .openBrace => enter t (depth - 1) (readObject rest)
    | _ => .error (wrongType Text.quote "struct Span" ts)

end Span

/-- What is known of a node while its fields are read. -/
structure NodeFields where
  kind : Option Kind
  span : Option Span
  text : Option String
  children : Option (List Node)

/-- A kind by its name. -/
def Kind.read : Reader Kind := fun ts => do
  let (name, ts) ← readString Text.quote ts
  return (.ofName name, ts)

namespace NodeFields

def field (depth : Nat) (readChildren : Reader (List Node)) (key : String) (known : NodeFields)
    (ts : List Token) : Except Fault (NodeFields × List Token) := do
  if key = "kind" then
    let (x, ts) ← newField key known.kind Kind.read ts
    return ({ known with kind := x }, ts)
  else if key = "span" then
    let (x, ts) ← newField key known.span (Span.read depth) ts
    return ({ known with span := x }, ts)
  else if key = "text" then
    let (x, ts) ← newField key known.text (readString Text.quote) ts
    return ({ known with text := x }, ts)
  else if key = "children" then
    let (x, ts) ← newField key known.children readChildren ts
    return ({ known with children := x }, ts)
  else
    return (known, ← skipField ts)

def finish (known : NodeFields) (ts : List Token) : Except Fault Node := do
  let kind ← requireField "kind" known.kind ts
  let span ← requireField "span" known.span ts
  return ⟨kind, span, known.text.getD "", known.children.getD []⟩

end NodeFields

def Span.toJson (s : Span) : String :=
  "\x7b\"start\":" ++ toString s.start ++ ",\"end\":" ++ toString s.stop ++ "\x7d"

namespace Node

def lengthText : String := "struct SyntaxNode with 4 elements"

section Reading

-- A node is read with the depth that is left in its bracket and with a reader of its children.

variable (left : Nat) (readChildren : Reader (List Node))

/-- The list form of a node, behind its bracket. -/
def readElements : Reader Node := fun ts => do
  let (kind, ts) ← requiredElement Kind.read 0 lengthText ts
  let (span, ts) ← requiredElement (Span.read left) 1 lengthText ts
  let (text, ts) ← optionalElement (readString Text.quote) "" ts
  let (children, ts) ← optionalElement readChildren [] ts
  return (⟨kind, span, text, children⟩, ← closeList ts)

/-- The object form of a node, behind its brace. -/
def readObject : Reader Node := fun ts => do
  let start : NodeFields := ⟨none, none, none, none⟩
  let (known, ts) ← readFields (NodeFields.field left readChildren) (ts.length + 1) true start ts
  return (← known.finish ts, ts.drop 1)

def readWith : Reader Node := fun ts =>
  match ts with
  | [] => .error (wrongType Text.quote "struct SyntaxNode" ts)
  | t :: rest =>
    match t.shape with
    | .openBracket => enter t left (readElements left readChildren rest)
    | .openBrace => enter t left (readObject left readChildren rest)
    | _ => .error (wrongType Text.quote "struct SyntaxNode" ts)

end Reading

mutual

/-- A node; `depth` is what remains of the depth in front of its bracket, so without any the
brackets around it are too many. -/
def read : (depth : Nat) → Reader Node
  | 0 => fun _ => .error (.atEnd .nestedTooDeep)
  | left + 1 => readWith left (readChildren left)

/-- The children of a node, with the depth that remains in front of their bracket. -/
def readChildren : (depth : Nat) → Reader (List Node)
  | 0 => fun _ => .error (.atEnd .nestedTooDeep)
  | left + 1 => readList Text.quote left (read left)

end

def ofJson (document : String) : Except Report Node :=
  readDocument (read depthLimit) document

mutual

/-- The JSON form without blanks: all fields, in the order kind, span, text, children. -/
def toJson : Node → String
  | ⟨kind, span, text, children⟩ =>
    "\x7b\"kind\":" ++ encode kind.name ++ ",\"span\":" ++ span.toJson ++
    ",\"text\":" ++ encode text ++ ",\"children\":[" ++ toJsonList children ++ "]\x7d"

/-- The JSON forms with commas between them. -/
def toJsonList : List Node → String
  | [] => ""
  | [c] => c.toJson
  | c :: cs => c.toJson ++ "," ++ toJsonList cs

end

end Node

end VhdlLowering
