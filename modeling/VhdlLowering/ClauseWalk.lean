import VhdlLowering.Session

/-!
# Walking through a clause

The objects of a clause are appended to a list that may hold others, one declaration after the
other, and their names are interned as they are met. At a defect the list and the table stay as they
are by then, and no node is handed back.
-/

namespace VhdlLowering

/-- A list of objects under way, and the table that its symbols are from. -/
structure ObjectList where
  names : NameTable
  objects : List (Object Symbol)

/-- Adds to a list of objects. The list is kept at a defect. -/
abbrev ListM := EStateM Defect ObjectList

/-- A list of objects, and the nodes that are to be handed back. -/
structure ClauseWalk extends ObjectList where
  others : List Node

abbrev WalkM := EStateM Defect ClauseWalk

namespace ClauseWalk

/-- Works with the table only. -/
def inTable {α : Type} (x : TableM α) : WalkM α := fun w =>
  match x.run w.names with
  | .ok a t => .ok a { w with names := t }
  | .error d t => .error d { w with names := t }

variable (file : FileId) (kind : ObjectKind)

/-- Appends the objects of a declaration. -/
def append (n : Node) : WalkM Unit := do
  let objects ← inTable (n.interfaceObjects file kind)
  modify fun w => { w with objects := w.objects ++ objects }

def handBack (n : Node) : WalkM Unit := modify fun w => { w with others := w.others ++ [n] }

mutual

/-- Walks through the children of a node. -/
def walk : Node → WalkM Unit
  | ⟨_, _, _, cs⟩ => walkAmong cs

def walkAmong : List Node → WalkM Unit
  | [] => return ()
  | c :: cs => do
    (if c.isToken then pure ()
      else if c.kind.isInterfaceObject then append file kind c
      else if c.kind.isInterfaceWrapper then
        if c.hasObjectParts then append file kind c else walk c
      else handBack c)
    walkAmong cs

end

end ClauseWalk

/-- Appends the objects of a clause, and gives the nodes that are handed back. -/
def ObjectList.readClause (file : FileId) (kind : ObjectKind) (clause : Node) : ListM (List Node) :=
  fun l =>
    match (ClauseWalk.walk file kind clause).run ⟨l, []⟩ with
    | .ok _ w => .ok w.others w.toObjectList
    | .error d w => .error d w.toObjectList

end VhdlLowering
