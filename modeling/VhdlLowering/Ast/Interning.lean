import VhdlLowering.Ast.Declaration
import VhdlLowering.Name.Table

/-!
# Interning the names of a tree

A tree over texts becomes a tree over symbols by interning its names. The name of a declaration comes
first, then the names inside it in source order; the generics of a component come before its ports.
-/

namespace VhdlLowering

/-- Interns one name in the table at hand. -/
def internName (s : String) : StateM NameTable Symbol := fun t => t.intern s

def Object.intern (o : Object String) : StateM NameTable (Object Symbol) := do
  return { o with name := ← internName o.name }

def Subprogram.intern (d : Subprogram String) : StateM NameTable (Subprogram Symbol) := do
  let name ← internName d.name
  return ⟨name, d.kind, ← d.params.mapM Object.intern, d.returnType, d.span⟩

def TypeDefinition.intern : TypeDefinition String → StateM NameTable (TypeDefinition Symbol)
  | .enumeration literals => return .enumeration (← literals.mapM internName)
  | .incomplete => return .incomplete
  | .verbatim e => return .verbatim e

def TypeDecl.intern (d : TypeDecl String) : StateM NameTable (TypeDecl Symbol) := do
  let name ← internName d.name
  return ⟨name, ← d.definition.intern, d.span⟩

def SubtypeDecl.intern (d : SubtypeDecl String) : StateM NameTable (SubtypeDecl Symbol) := do
  return ⟨← internName d.name, d.indication, d.span⟩

def Component.intern (d : Component String) : StateM NameTable (Component Symbol) := do
  let name ← internName d.name
  let generics ← d.generics.mapM Object.intern
  let ports ← d.ports.mapM Object.intern
  return ⟨name, generics, ports, d.span⟩

mutual

def Declaration.intern : Declaration String → StateM NameTable (Declaration Symbol)
  | .subprogram d => return .subprogram (← d.intern)
  | .type d => return .type (← d.intern)
  | .subtype d => return .subtype (← d.intern)
  | .constant d => return .constant (← d.intern)
  | .signal d => return .signal (← d.intern)
  | .variable d => return .variable (← d.intern)
  | .package ⟨name, only, ds, span⟩ => do
    let name ← internName name
    let ds ← Declaration.internList ds
    return .package ⟨name, only, ds, span⟩
  | .component d => return .component (← d.intern)

def Declaration.internList :
    List (Declaration String) → StateM NameTable (List (Declaration Symbol))
  | [] => return []
  | d :: ds => do
    let d ← d.intern
    return d :: (← Declaration.internList ds)

end

def Package.intern (p : Package String) : StateM NameTable (Package Symbol) := do
  let name ← internName p.name
  return ⟨name, p.declarationsOnly, ← Declaration.internList p.declarations, p.span⟩

end VhdlLowering
