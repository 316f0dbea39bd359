import VhdlLowering.Ast.Object
import VhdlLowering.Lowering.Effects
import VhdlLowering.Syntax.SourceText

/-!
# Names and fragments

A declaration is named by its identifiers. A name without text counts as no name at all. Types and
values are fragments: their source text is kept together with its position.
-/

namespace VhdlLowering

variable {ν : Type} {m : Type → Type} [MonadNaming ν m]

namespace Node

/-- The source text of a node with its position. -/
def fragment (file : FileId) (n : Node) : Expr := ⟨n.sourceText, ⟨file, n.span⟩⟩

def fileSpan (file : FileId) (n : Node) : FileSpan := ⟨file, n.span⟩

/-- The first child of a kind, which the node has to have. -/
def required (n : Node) (r : Rule) : m Node := require (n.child? r) (.missingIn n r)

/-- The name that an identifier gives to a node. -/
def nameBy (n ident : Node) : m ν :=
  if ident.sourceText = "" then MonadNaming.fail (.missingIn n .identifier)
  else intern ident.sourceText

/-- The name of a node with one name. -/
def name (n : Node) : m ν := do n.nameBy (← n.required .identifier)

/-- The identifiers of a node that may have several names, alone or in a list. -/
def identifiers (n : Node) : List Node :=
  ((n.child? (.rule .identifierList)).getD n).childrenOf (.rule .identifier)

/-- The names of a node that declares at least one. -/
def names (n : Node) : m (List ν) := do
  let names ← n.identifiers.mapM n.nameBy
  if names.isEmpty then MonadNaming.fail (.nameless n.kind n.span.region)
  else return names

end Node

/-- The objects of one declaration: one for each name, alike in all else. -/
def Object.forNames (kind : ObjectKind) (direction : Option Direction) (type : Expr)
    (value : Option Expr) (span : FileSpan) (names : List ν) : List (Object ν) :=
  names.map fun name => ⟨name, kind, direction, some type, value, span⟩

/-- The objects of a constant, signal or variable declaration. -/
def Object.ofNode (file : FileId) (kind : ObjectKind) (n : Node) :
    m (List (Object ν)) := do
  let names ← n.names
  let type ← n.required .subtypeIndication
  let value := (n.child? (.rule .expression)).map (Node.fragment file)
  return forNames kind none (type.fragment file) value (n.fileSpan file) names

end VhdlLowering
