import VhdlLowering.Ast.Declaration
import VhdlLowering.Lowering.Interface

/-!
# Types, subtypes and subprograms

The reader of each kind of declaration looks at the shape of the node only and does not check its
kind. Every declaration has the position of the whole node.
-/

namespace VhdlLowering

variable {ν : Type} {m : Type → Type} [MonadNaming ν m]

namespace Node

/-- The specification inside a subprogram specification; a function is looked for first. -/
def subprogramParts (spec : Node) : m (SubprogramKind × Node) :=
  match spec.child? (.rule .functionSpecification), spec.child? (.rule .procedureSpecification) with
  | some function, _ => return (.function, function)
  | none, some procedure => return (.procedure, procedure)
  | none, none => MonadNaming.fail (.missingIn spec .procedureSpecification)

/-- The name of a subprogram: its designator, or else an identifier. -/
def designator (spec : Node) : m ν :=
  match spec.child? (.rule .designator) with
  | some d => spec.nameBy d
  | none => spec.name

/-- The parameters of a subprogram. Nothing but objects may be a parameter. -/
def parameters (file : FileId) (spec : Node) : m (List (Object ν)) :=
  match spec.child? (.rule .formalParameterList) with
  | none => return []
  | some list => do
    let params ← InterfaceList.ofNode file .parameter list
    match params.others with
    | [] => return params.objects
    | n :: _ => MonadNaming.fail (.unexpectedNode n .interfaceObjectDeclaration)

/-- The return type, which a function has and a procedure has not. -/
def returnType (file : FileId) (kind : SubprogramKind) (spec : Node) : m (Option Expr) :=
  match kind with
  | .function => do
    let mark := (spec.child? (.rule .typeMark)).or (spec.child? (.rule .subtypeIndication))
    return some ((← require mark (.missingIn spec .typeMark)).fragment file)
  | .procedure => return none

end Node

def Subprogram.ofNode (file : FileId) (n : Node) : m (Subprogram ν) := do
  let (kind, spec) ← (← n.required .subprogramSpecification).subprogramParts
  let name ← spec.designator
  let params ← spec.parameters file
  return ⟨name, kind, params, ← spec.returnType file kind, n.fileSpan file⟩

namespace Node

/-- The declaration inside a type declaration, which may also stand without it. -/
def typeParts (n : Node) : Node :=
  ((n.child? (.rule .fullTypeDeclaration)).or (n.child? (.rule .incompleteTypeDeclaration))).getD n

/-- The literals of an enumeration; without literals its identifiers stand for them. -/
def literals (n : Node) : List Node :=
  match n.childrenOf (.rule .enumerationLiteral) with
  | [] => n.childrenOf (.rule .identifier)
  | cs => cs

/-- The text of a literal is its name, even if it is empty. -/
def literalName (n : Node) : m ν := intern n.sourceText

/-- The definition of a type; an enumeration may stand anywhere below it. -/
def typeDefinition (file : FileId) (n : Node) : m (TypeDefinition ν) :=
  if n.kind = .rule .incompleteTypeDeclaration then return .incomplete
  else
    match n.findDescendant? (.rule .enumerationTypeDefinition), n.child? (.rule .typeDefinition) with
    | some enumeration, _ => .enumeration <$> enumeration.literals.mapM literalName
    | none, some definition => return .verbatim (definition.fragment file)
    | none, none => return .incomplete

end Node

def TypeDecl.ofNode (file : FileId) (n : Node) : m (TypeDecl ν) := do
  let name ← n.typeParts.name
  let definition ← n.typeParts.typeDefinition file
  return ⟨name, definition, n.fileSpan file⟩

def SubtypeDecl.ofNode (file : FileId) (n : Node) : m (SubtypeDecl ν) := do
  let name ← n.name
  let indication ← n.required .subtypeIndication
  return ⟨name, indication.fragment file, n.fileSpan file⟩

end VhdlLowering
