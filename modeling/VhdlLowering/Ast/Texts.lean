import VhdlLowering.Ast.Declaration

/-!
# Texts of a tree

The texts that a tree over texts holds: its names and its fragments. The texts of a declaration
begin with its name, and those of what it declares follow in source order.
-/

namespace VhdlLowering

/-- The text of a fragment, if there is one. -/
def Expr.textOf? (e : Option Expr) : List String := (e.map Expr.text).toList

def Object.texts (o : Object String) : List String :=
  o.name :: (Expr.textOf? o.type ++ Expr.textOf? o.value)

def Subprogram.texts (d : Subprogram String) : List String :=
  d.name :: (d.params.flatMap Object.texts ++ Expr.textOf? d.returnType)

def TypeDefinition.texts : TypeDefinition String → List String
  | .enumeration literals => literals
  | .incomplete => []
  | .verbatim e => [e.text]

def TypeDecl.texts (d : TypeDecl String) : List String := d.name :: d.definition.texts

def SubtypeDecl.texts (d : SubtypeDecl String) : List String := [d.name, d.indication.text]

def Component.texts (c : Component String) : List String :=
  c.name :: (c.generics ++ c.ports).flatMap Object.texts

mutual

def Declaration.texts : Declaration String → List String
  | .subprogram d => d.texts
  | .type d => d.texts
  | .subtype d => d.texts
  | .constant o | .signal o | .variable o => o.texts
  | .package ⟨name, _, ds, _⟩ => name :: Declaration.textsOf ds
  | .component c => c.texts

def Declaration.textsOf : List (Declaration String) → List String
  | [] => []
  | d :: ds => d.texts ++ Declaration.textsOf ds

end

def Package.texts (p : Package String) : List String :=
  p.name :: Declaration.textsOf p.declarations

theorem Declaration.textsOf_eq_flatMap (ds : List (Declaration String)) :
    Declaration.textsOf ds = ds.flatMap Declaration.texts := by
  induction ds with
  | nil => rfl
  | cons d ds ih => simp [Declaration.textsOf, ih]

theorem Declaration.texts_package (p : Package String) :
    Declaration.texts (.package p) = Package.texts p := rfl

end VhdlLowering
