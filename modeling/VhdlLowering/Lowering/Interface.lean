import VhdlLowering.Lowering.Naming
import VhdlLowering.Lowering.Traced

/-!
# Interface clauses

Generic clauses, port clauses and parameter lists declare objects. The grammars wrap the declarations
in lists and elements, which are walked through; a wrapper that itself has the parts of an object is
one. What is neither an object nor a wrapper of objects is handed back unread.
-/

namespace VhdlLowering

variable {ν : Type} {m : Type → Type} [MonadNaming ν m]

/-- What a walk through an interface clause comes upon. -/
inductive InterfaceItem where
  | object (n : Node)
  | other (n : Node)

def InterfaceItem.other? : InterfaceItem → Option Node
  | object _ => none
  | other n => some n

namespace Kind

/-- Declarations of one class of interface objects. -/
def isInterfaceObject : Kind → Bool
  | .rule .interfaceConstantDeclaration | .rule .interfaceSignalDeclaration
  | .rule .interfaceVariableDeclaration | .rule .interfaceFileDeclaration => true
  | _ => false

def isInterfaceWrapper : Kind → Bool
  | .rule .interfaceList | .rule .interfaceElement | .rule .interfaceDeclaration
  | .rule .interfaceObjectDeclaration => true
  | _ => false

end Kind

namespace Node

/-- Whether a wrapper has the parts of an object itself. -/
def hasObjectParts (n : Node) : Bool :=
  [Rule.identifierList, Rule.identifier, Rule.mode, Rule.subtypeIndication].any fun r =>
    (n.child? r).isSome

/-- Whether a node declares interface objects. -/
def declaresInterface (n : Node) : Bool :=
  n.kind.isInterfaceObject || (n.kind.isInterfaceWrapper && n.hasObjectParts)

mutual

/-- The items below a node, in source order; tokens are left out. -/
def interfaceItems : Node → List InterfaceItem
  | ⟨_, _, _, cs⟩ => interfaceItemsAmong cs

def interfaceItemsAmong : List Node → List InterfaceItem
  | [] => []
  | c :: cs =>
    (if c.isToken then []
      else if c.declaresInterface then [.object c]
      else if c.kind.isInterfaceWrapper then interfaceItems c
      else [.other c]) ++ interfaceItemsAmong cs

end

/-- The mode of an object. Ports and parameters without a mode are inputs. -/
def direction (kind : ObjectKind) (n : Node) : m (Option Direction) :=
  match n.child? (.rule .mode) with
  | some mode =>
    match Direction.ofKeyword? mode.sourceText with
    | some d => return some d
    | none => MonadNaming.fail (.invalidMode mode.sourceText mode.span.region)
  | none =>
    match kind with
    | .port | .parameter => return some .input
    | .constant | .signal | .variable | .generic => return none

/-- The objects of one interface declaration. -/
def interfaceObjects (file : FileId) (kind : ObjectKind) (n : Node) :
    m (List (Object ν)) := do
  let names ← n.names
  let direction ← n.direction kind
  let type ← n.required .subtypeIndication
  let value := (n.child? (.rule .expression)).map (fragment file)
  return Object.forNames kind direction (type.fragment file) value (n.fileSpan file) names

end Node

/-- The objects of a clause, and the nodes handed back. -/
structure InterfaceList (ν : Type := String) where
  objects : List (Object ν)
  others : List Node

namespace InterfaceList

/-- Reads the objects of an item, if it is an object declaration. -/
def itemObjects (file : FileId) (kind : ObjectKind) : InterfaceItem → m (List (Object ν))
  | .object n => n.interfaceObjects file kind
  | .other _ => return []

def ofNode (file : FileId) (kind : ObjectKind) (clause : Node) : m (InterfaceList ν) := do
  let objects ← clause.interfaceItems.mapM (itemObjects file kind)
  return ⟨objects.flatten, clause.interfaceItems.filterMap InterfaceItem.other?⟩

/-- The objects read in front of the first defect of a clause, or all if it has none. -/
def objectsRead (file : FileId) (kind : ObjectKind) (clause : Node) : List (Object String) :=
  let walk : List (Naming (List (Object String))) :=
    clause.interfaceItems.map (itemObjects file kind)
  (Traced.valuesBeforeFailure walk).flatten

end InterfaceList

end VhdlLowering
