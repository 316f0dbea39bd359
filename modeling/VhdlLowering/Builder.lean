import VhdlLowering.Session

/-!
# Building a package item by item

A package may be built in a session from items that are given to it one after the other. An item
with a defect leaves the package as it is. What the item left in the session stays, and the next
item may be given all the same.
-/

namespace VhdlLowering

/-- A package under way, and the session that its symbols are from. -/
structure Builder where
  session : Session
  package : Package Symbol

/-- Adds to a package. The builder is kept at a defect. -/
abbrev BuilderM := EStateM Defect Builder

namespace Builder

/-- A package without declarations in a session that knows its name. -/
def start (name : String) (span : FileSpan) : Builder :=
  let (x, t) := NameTable.empty.intern name
  ⟨⟨t, []⟩, Package.empty x span⟩

/-- Works in the session only. -/
def inSession {α : Type} (x : SessionM α) : BuilderM α := fun b =>
  match x.run b.session with
  | .ok a s => .ok a { b with session := s }
  | .error d s => .error d { b with session := s }

def accept (ctx : Context) (item : DeclarativeItem) : BuilderM Accepted := do
  let b ← get
  let (accepted, p) ← inSession (b.package.accept ctx item)
  modify fun b => { b with package := p }
  return accepted

/-- What giving an item came to. -/
abbrev Outcome := Except Defect Accepted

/-- The outcome of giving an item, and the builder after it. -/
def give (ctx : Context) (b : Builder) (item : DeclarativeItem) : Outcome × Builder :=
  match (accept ctx item).run b with
  | .ok a next => (.ok a, next)
  | .error d next => (.error d, next)

/-- The outcomes of giving items one after the other, and the builder after them. -/
def giveAll (ctx : Context) (b : Builder) : List DeclarativeItem → List Outcome × Builder
  | [] => ([], b)
  | item :: items =>
    let (outcome, b) := b.give ctx item
    let (outcomes, b) := b.giveAll ctx items
    (outcome :: outcomes, b)

end Builder

end VhdlLowering
