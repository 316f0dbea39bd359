import VhdlLowering.Lowering.Classification
import VhdlLowering.Lowering.Declarations
import VhdlLowering.Lowering.Traced

/-!
# Components and packages

A component is lowered to its signature. A package is lowered item by item: what an item declares is
appended to the declarations of the package, an unsupported item is skipped, and a defect of an item
is a defect of the package. If only the hierarchy is wanted, components and packages are empty.
-/

namespace VhdlLowering

variable {ν : Type} {r m : Type → Type} [MonadNaming ν r] [MonadLowering r m]

/-- The file that a tree comes from, and how much of it is lowered. -/
structure Context where
  file : FileId
  hierarchyOnly : Bool
deriving DecidableEq, Repr

/-- The objects of a clause of a component, if it has that clause. -/
def InterfaceList.ofChild (file : FileId) (kind : ObjectKind) (clause : Rule) (n : Node) :
    r (InterfaceList ν) :=
  match n.child? clause with
  | some c => InterfaceList.ofNode file kind c
  | none => return ⟨[], []⟩

def Component.ofNode (ctx : Context) (n : Node) : m (Component ν) := do
  read (n.ensure .componentDeclaration)
  let name ← read n.name
  if ctx.hierarchyOnly then
    return ⟨name, [], [], n.fileSpan ctx.file⟩
  else
    let generics ← read (InterfaceList.ofChild ctx.file .generic .genericClause n)
    let ports ← read (InterfaceList.ofChild ctx.file .port .portClause n)
    (generics.others ++ ports.others).forM
      (Node.skipAs "InterfaceParser.visitInterface_declaration")
    return ⟨name, generics.objects, ports.objects, n.fileSpan ctx.file⟩

namespace Node

/-- Skips the generic clause and the generic map of a package. -/
def skipHeader (n : Node) : m Unit :=
  match n.child? (.rule .packageHeader) with
  | none => pure ()
  | some header => do
    (header.child? (.rule .genericClause)).forM
      (skipAs "PackageHeaderParser.visitGeneric_clause")
    (header.child? (.rule .genericMapAspect)).forM
      (skipAs "PackageHeaderParser.visitGeneric_map_aspect")

/-- The items of a package. -/
def packageItems (n : Node) : List Node :=
  ((n.child? (.rule .packageDeclarativePart)).map children).getD []

theorem sizes_packageItems_lt (n : Node) : sizes n.packageItems + 1 ≤ n.size := by
  unfold packageItems
  cases h : n.child? (.rule .packageDeclarativePart) with
  | none => simp [size_eq n]
  | some part =>
    have := size_lt_of_child? h
    have := size_eq part
    simp only [Option.map_some, Option.getD_some]
    omega

end Node

mutual

/-- What an item declares; nothing if it is skipped. -/
def DeclarativeItem.lower (ctx : Context) (item : DeclarativeItem) :
    m (List (Declaration ν)) :=
  match item.role with
  | .subprogram => do return [.subprogram (← read (Subprogram.ofNode ctx.file item.node))]
  | .package => do return [.package (← Package.ofNode ctx item.node)]
  | .type => do return [.type (← read (TypeDecl.ofNode ctx.file item.node))]
  | .subtype => do return [.subtype (← read (SubtypeDecl.ofNode ctx.file item.node))]
  | .constant => do return (← read (Object.ofNode ctx.file .constant item.node)).map .constant
  | .signal => do return (← read (Object.ofNode ctx.file .signal item.node)).map .signal
  | .variable => do return (← read (Object.ofNode ctx.file .variable item.node)).map .variable
  | .component => do return [.component (← Component.ofNode ctx item.node)]
  | .unsupported u => do
    item.node.skipAs u.label
    return []
termination_by 3 * item.node.size + 1

/-- What the items of a package declare, item by item. -/
def Package.declarationsOf (ctx : Context) : List Node → m (List (Declaration ν))
  | [] => return []
  | c :: cs => do
    let ds ← (DeclarativeItem.classify c).lower ctx
    return ds ++ (← Package.declarationsOf ctx cs)
termination_by cs => 3 * Node.sizes cs + 2
decreasing_by
  · have := DeclarativeItem.size_classify_le c
    simp only [Node.sizes_cons]
    omega
  · have := Node.size_eq c
    simp only [Node.sizes_cons]
    omega

def Package.ofNode (ctx : Context) (n : Node) : m (Package ν) := do
  read (n.ensure .packageDeclaration)
  let name ← read n.name
  if ctx.hierarchyOnly then
    return ⟨name, true, [], n.fileSpan ctx.file⟩
  else
    n.skipHeader
    return ⟨name, true, ← Package.declarationsOf ctx n.packageItems, n.fileSpan ctx.file⟩
termination_by 3 * n.size
decreasing_by
  have := Node.sizes_packageItems_lt n
  omega

end

/-- What became of an item that was given to a scope. -/
inductive Accepted where
  /-- This many declarations were appended. -/
  | appended (count : Nat)
  | skipped
deriving DecidableEq, Repr

/-- A package without declarations. -/
def Package.empty (name : ν) (span : FileSpan) : Package ν := ⟨name, true, [], span⟩

/-- Appends what an item declares. If the item has a defect the package stays as it is. -/
def Package.accept (ctx : Context) (p : Package ν) (item : DeclarativeItem) :
    m (Accepted × Package ν) := do
  let ds ← item.lower ctx
  let accepted := match item.role with
    | .unsupported _ => Accepted.skipped
    | _ => Accepted.appended ds.length
  return (accepted, { p with declarations := p.declarations ++ ds })

/-- The package after an item was given to it. -/
def Package.afterItem (ctx : Context) (p : Package String) (item : DeclarativeItem) :
    Package String :=
  match (p.accept ctx item : Lowering (Accepted × Package String)).result with
  | .ok (_, q) => q
  | .error _ => p

end VhdlLowering
