/-!
# Tables of a TOML document

A table is a list of entries with distinct keys. A table may be defined by its own header, implied by
the header of a table below it, or made by a dotted key. Which of these it is decides what may still
be added: a table is defined once, and dotted keys add only to tables made by dotted keys.
-/

namespace VhdlLowering
namespace Toml

inductive Origin where
  | defined
  | implied
  | dotted
deriving DecidableEq, Repr

inductive Item where
  | boolean (b : Bool)
  | text (s : String)
  | number
  /-- A date, a time or both. -/
  | moment
  | list (items : List Item)
  /-- A table in braces, to which nothing can be added. -/
  | record (entries : List (String × Item))
  | table (origin : Origin) (entries : List (String × Item))
  /-- A list of tables made by headers, oldest first. -/
  | tables (elements : List (List (String × Item)))
deriving Repr

abbrev Entries := List (String × Item)

namespace Entries

def find? (key : String) (es : Entries) : Option Item := es.lookup key

/-- Replaces the entry of a key, or adds one; the replacement may be refused. -/
def alter? (key : String) (f : Option Item → Option Item) : Entries → Option Entries
  | [] => (f none).map fun x => [(key, x)]
  | (k, old) :: es =>
    if k = key then (f (some old)).map fun x => (k, x) :: es
    else (alter? key f es).map ((k, old) :: ·)

/-- Adds an entry whose key is new. -/
def add? (key : String) (x : Item) (es : Entries) : Option Entries :=
  es.alter? key fun old => if old.isSome then none else some x

/-- Changes the last of some elements. -/
def alterLast? {α : Type} (f : α → Option α) : List α → Option (List α)
  | [] => none
  | [x] => (f x).map fun y => [y]
  | x :: xs => (alterLast? f xs).map (x :: ·)

/-- Sets the value of a dotted key, given by the tables on the way and the last part. -/
def assign? (path : List String) (key : String) (value : Item) (es : Entries) : Option Entries :=
  match path with
  | [] => es.add? key value
  | k :: ks =>
    es.alter? k fun old =>
      match old with
      | none => (assign? ks key value []).map (.table .dotted)
      | some (.table .dotted sub) => (assign? ks key value sub).map (.table .dotted)
      | some (.table .implied sub) =>
        if ks.isEmpty then none else (assign? ks key value sub).map (.table .implied)
      | some (.tables elements) =>
        if ks.isEmpty then none else (alterLast? (assign? ks key value) elements).map .tables
      | some _ => none

/-- Changes what a header names, given by the tables on the way and the last part. Tables on the way
that do not exist are implied, and of a list of tables the last is meant. -/
def place? (path : List String) (key : String) (f : Option Item → Option Item) (es : Entries) :
    Option Entries :=
  match path with
  | [] => es.alter? key f
  | k :: ks =>
    es.alter? k fun old =>
      match old with
      | none => (place? ks key f []).map (.table .implied)
      | some (.table origin sub) => (place? ks key f sub).map (.table origin)
      | some (.tables elements) => (alterLast? (place? ks key f) elements).map .tables
      | some _ => none

end Entries

/-- A key of one or more parts. -/
structure Key where
  path : List String
  last : String
deriving DecidableEq, Repr

structure Assignment where
  key : Key
  value : Item

/-- A line of a document. -/
inductive Statement where
  | assignment (a : Assignment)
  | header (key : Key)
  /-- The header of an element of a list of tables. -/
  | elementHeader (key : Key)

/-- A header with the assignments that follow it. -/
structure Section where
  key : Key
  isElement : Bool
  body : List Assignment

/-- The assignments in front of the first header, and the sections. -/
def sections : List Statement → List Assignment × List Section
  | [] => ([], [])
  | .assignment a :: rest => (a :: (sections rest).1, (sections rest).2)
  | .header key :: rest => ([], ⟨key, false, (sections rest).1⟩ :: (sections rest).2)
  | .elementHeader key :: rest => ([], ⟨key, true, (sections rest).1⟩ :: (sections rest).2)

/-- Adds the values of some assignments to a table. -/
def assignAll? (es : Entries) (body : List Assignment) : Option Entries :=
  body.foldlM (fun es a => es.assign? a.key.path a.key.last a.value) es

/-- Adds a section. A table may have been implied before, but not defined. -/
def addSection? (root : Entries) (s : Section) : Option Entries :=
  root.place? s.key.path s.key.last fun old =>
    match s.isElement, old with
    | false, none => (assignAll? [] s.body).map (.table .defined)
    | false, some (.table .implied es) => (assignAll? es s.body).map (.table .defined)
    | true, none => (assignAll? [] s.body).map fun es => .tables [es]
    | true, some (.tables elements) =>
      (assignAll? [] s.body).map fun es => .tables (elements ++ [es])
    | _, some _ => none

/-- The root table of a document. -/
def build? (statements : List Statement) : Option Entries := do
  let (start, rest) := sections statements
  rest.foldlM addSection? (← assignAll? [] start)

end Toml
end VhdlLowering
