import VhdlLowering.Syntax.Node

/-!
# Classification of declarative items

An item of a package is a declaration, or a wrapper around one. Eighteen rules are declarations:
eight of them are lowered, ten are known but not supported, and every other node is unsupported too.
Of several declarations in a wrapper the one whose rule comes first in the list of rules counts.
-/

namespace VhdlLowering

/-- The declarations that are known but not supported, and all other items. -/
inductive Unsupported where
  | subprogramInstantiation
  | packageInstantiation
  | fileDeclaration
  | aliasDeclaration
  | attributeDeclaration
  | attributeSpecification
  | disconnectionSpecification
  | useClause
  | groupTemplate
  | group
  | other
deriving DecidableEq, Repr

/-- The rule that is named when such an item is skipped. -/
def Unsupported.label : Unsupported → String
  | subprogramInstantiation =>
    "PackageHeaderParser.visitPackage_declarative_item - subprogram_instantiation_declaration"
  | packageInstantiation =>
    "PackageHeaderParser.visitPackage_declarative_item - package_instantiation_declaration"
  | fileDeclaration => "PackageHeaderParser.visitFile_declaration"
  | aliasDeclaration => "PackageHeaderParser.visitAlias_declaration"
  | attributeDeclaration => "PackageHeaderParser.visitAttribute_declaration"
  | attributeSpecification => "PackageHeaderParser.visitAttribute_specification"
  | disconnectionSpecification => "PackageHeaderParser.visitDisconnection_specification"
  | useClause => "PackageHeaderParser.visitUse_clause"
  | groupTemplate => "PackageHeaderParser.visitGroup_template_declaration"
  | group => "PackageHeaderParser.visitGroup_declaration"
  | other => "VhdlPackageHeaderParser.visitPackage_declarative_item"

/-- What an item of a package is. -/
inductive Role where
  | subprogram
  | package
  | type
  | subtype
  | constant
  | signal
  | variable
  | component
  | unsupported (u : Unsupported)
deriving DecidableEq, Repr

/-- The rules that are declarations, in the order in which they are looked for in a wrapper. -/
def Rule.declarations : List Rule :=
  [.subprogramDeclaration, .subprogramInstantiationDeclaration, .packageDeclaration,
    .packageInstantiationDeclaration, .typeDeclaration, .subtypeDeclaration, .constantDeclaration,
    .signalDeclaration, .variableDeclaration, .fileDeclaration, .aliasDeclaration,
    .attributeDeclaration, .attributeSpecification, .disconnectionSpecification, .useClause,
    .groupTemplateDeclaration, .groupDeclaration, .componentDeclaration]

/-- The role of a node that is no wrapper. -/
def Role.ofKind : Kind → Role
  | .rule .subprogramDeclaration => .subprogram
  | .rule .packageDeclaration => .package
  | .rule .typeDeclaration => .type
  | .rule .subtypeDeclaration => .subtype
  | .rule .constantDeclaration => .constant
  | .rule .signalDeclaration => .signal
  | .rule .variableDeclaration => .variable
  | .rule .componentDeclaration => .component
  | .rule .subprogramInstantiationDeclaration => .unsupported .subprogramInstantiation
  | .rule .packageInstantiationDeclaration => .unsupported .packageInstantiation
  | .rule .fileDeclaration => .unsupported .fileDeclaration
  | .rule .aliasDeclaration => .unsupported .aliasDeclaration
  | .rule .attributeDeclaration => .unsupported .attributeDeclaration
  | .rule .attributeSpecification => .unsupported .attributeSpecification
  | .rule .disconnectionSpecification => .unsupported .disconnectionSpecification
  | .rule .useClause => .unsupported .useClause
  | .rule .groupTemplateDeclaration => .unsupported .groupTemplate
  | .rule .groupDeclaration => .unsupported .group
  | _ => .unsupported .other

/-- A node and what it is. -/
structure DeclarativeItem where
  role : Role
  node : Node
deriving DecidableEq

namespace DeclarativeItem

/-- A node that is no wrapper. -/
def bare (n : Node) : DeclarativeItem := ⟨.ofKind n.kind, n⟩

def classify (n : Node) : DeclarativeItem :=
  if n.kind = .rule .packageDeclarativeItem then
    match Rule.declarations.findSome? fun r => n.child? (.rule r) with
    | some c => bare c
    | none => ⟨.unsupported .other, n⟩
  else bare n

/-- A classified node is the node itself or one of its children. -/
theorem classify_node (n : Node) : (classify n).node = n ∨ (classify n).node ∈ n.children := by
  unfold classify
  split
  · split
    · rename_i c h
      obtain ⟨r, _, hr⟩ := List.exists_of_findSome?_eq_some h
      exact .inr (Node.mem_children_of_child? hr)
    · exact .inl rfl
  · exact .inl rfl

theorem role_classify (n : Node) : (classify n).role = .ofKind (classify n).node.kind := by
  unfold classify
  split
  · rename_i hkind
    split
    · rfl
    · simp only [hkind, Role.ofKind]
  · rfl

theorem size_classify_le (n : Node) : (classify n).node.size ≤ n.size := by
  rcases classify_node n with h | h
  · exact Nat.le_of_eq (congrArg Node.size h)
  · exact Nat.le_of_lt (Node.size_lt_of_mem_children h)

end DeclarativeItem

end VhdlLowering
