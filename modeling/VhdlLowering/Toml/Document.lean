import VhdlLowering.Toml.Scalar

/-!
# TOML documents

A document is a list of lines: headers, assignments, comments and blank lines. Values and keys may
be nested to a limit.
-/

namespace VhdlLowering
namespace Toml

/-- Values and keys have fewer levels than this. -/
def levelLimit : Nat := 80

def skipComment (cs : List Char) : List Char :=
  match cs with
  | '#' :: rest => rest.dropWhile isTextChar
  | _ => cs

/-- The text after the end of a line, which may have a comment. -/
def endLine? (cs : List Char) : Option (List Char) :=
  match skipComment (cs.dropWhile isBlank) with
  | [] => some []
  | cs => afterNewline? cs

/-- Skips blanks, line feeds and comments. Fuel for every character is enough. -/
def skipLines : (fuel : Nat) → List Char → List Char
  | 0, cs => cs
  | fuel + 1, cs =>
    match afterNewline? (skipComment (cs.dropWhile isBlank)) with
    | some rest => skipLines fuel rest
    | none => cs.dropWhile isBlank

def isBareKeyChar (c : Char) : Bool := c.isAlphanum || c == '_' || c == '-'

/-- One part of a key: bare, in quotes or in apostrophes. -/
def scanSimpleKey (cs : List Char) : Option (String × List Char) :=
  match cs with
  | [] => none
  | c :: rest =>
    if c = quoteMark then
      (scanQuoted (rest.length + 1) rest).map fun (s, rest) => (String.ofList s, rest)
    else if c = apostrophe then
      (scanLiteral rest).map fun (s, rest) => (String.ofList s, rest)
    else if isBareKeyChar c then
      some (String.ofList (cs.takeWhile isBareKeyChar), cs.dropWhile isBareKeyChar)
    else none

/-- The parts of a key with points between them. Fuel for every part is enough. -/
def scanParts : (fuel : Nat) → Scanner (List String)
  | 0, _ => none
  | fuel + 1, cs => do
    let (part, cs) ← scanSimpleKey (cs.dropWhile isBlank)
    match cs.dropWhile isBlank with
    | '.' :: rest =>
      let (parts, rest) ← scanParts fuel rest
      return (part :: parts, rest)
    | rest => return ([part], rest)

def scanKey (cs : List Char) : Option (Key × List Char) := do
  let (parts, cs) ← scanParts (levelLimit - 1) cs
  return (⟨parts.dropLast, ← parts.getLast?⟩, cs)

/-- The rest of a list behind its bracket or a comma. -/
def scanList (item : Scanner Item) : (fuel : Nat) → Scanner (List Item)
  | 0, _ => none
  | fuel + 1, cs =>
    match skipLines cs.length cs with
    | ']' :: rest => some ([], rest)
    | cs => do
      let (x, cs) ← item cs
      match skipLines cs.length cs with
      | ',' :: rest =>
        let (xs, rest) ← scanList item fuel rest
        return (x :: xs, rest)
      | ']' :: rest => return ([x], rest)
      | _ => none

/-- An assignment in front of the end of its line. -/
def scanAssignment (item : Scanner Item) (cs : List Char) : Option (Assignment × List Char) := do
  let (key, cs) ← scanKey cs
  let (x, cs) ← item ((← scanChar '=' cs).dropWhile isBlank)
  return (⟨key, x⟩, cs)

/-- The assignments of a table in braces, behind the brace or a comma. -/
def scanFields (item : Scanner Item) : (fuel : Nat) → Scanner (List Assignment)
  | 0, _ => none
  | fuel + 1, cs => do
    let (a, cs) ← scanAssignment item cs
    match cs.dropWhile isBlank with
    | ',' :: rest =>
      let (as, rest) ← scanFields item fuel rest
      return (a :: as, rest)
    | '}' :: rest => return ([a], rest)
    | _ => none

/-- A table in braces behind its brace. -/
def scanRecord (item : Scanner Item) (cs : List Char) : Option (Item × List Char) :=
  match cs.dropWhile isBlank with
  | '}' :: rest => some (.record [], rest)
  | _ => do
    let (as, rest) ← scanFields item (cs.length + 1) cs
    return (.record (← assignAll? [] as), rest)

/-- A value whose lists and tables are nested to the given number of levels. -/
def scanItem : (levels : Nat) → Scanner Item
  | 0, cs => scanScalar cs
  | levels + 1, cs =>
    match cs with
    | '[' :: rest =>
      (scanList (scanItem levels) (rest.length + 1) rest).map fun (xs, rest) => (.list xs, rest)
    | '{' :: rest => scanRecord (scanItem levels) rest
    | _ => scanScalar cs

/-- A header or an assignment. -/
def scanStatement (cs : List Char) : Option (Statement × List Char) :=
  match cs with
  | '[' :: '[' :: rest => do
    let (key, rest) ← scanKey rest
    return (.elementHeader key, ← scanChar ']' (← scanChar ']' rest))
  | '[' :: rest => do
    let (key, rest) ← scanKey rest
    return (.header key, ← scanChar ']' rest)
  | _ => (scanAssignment (scanItem (levelLimit - 1)) cs).map fun (a, rest) => (.assignment a, rest)

/-- The statements of a document. Fuel for every character is enough. -/
def scanStatements : (fuel : Nat) → List Char → Option (List Statement)
  | 0, cs => if cs.isEmpty then some [] else none
  | fuel + 1, cs =>
    match cs.dropWhile isBlank with
    | [] => some []
    | cs =>
      match endLine? cs with
      | some rest => scanStatements fuel rest
      | none => do
        let (s, rest) ← scanStatement cs
        let rest ← endLine? rest
        return s :: (← scanStatements fuel rest)

/-- Reads a document; a byte order mark in front is skipped. -/
def parse? (document : String) : Option Entries := do
  let cs := match document.toList with
    | '\uFEFF' :: rest => rest
    | cs => cs
  build? (← scanStatements (cs.length + 1) cs)

end Toml
end VhdlLowering
