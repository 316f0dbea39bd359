import VhdlLowering.Ast.Declaration

/-!
# Outlines

The outline of a package shows one row for each declaration, in source order. A nested package is
followed by its own declarations and a component by its generics and ports, one level deeper. A
level is worth two spaces at the start of the row, and every row ends with a line feed.
-/

namespace VhdlLowering

/-- A text at a level of nesting. -/
structure Row where
  depth : Nat
  text : String
deriving DecidableEq, Repr

def Row.render (r : Row) : String :=
  String.ofList (List.replicate (2 * r.depth) ' ') ++ r.text ++ "\n"

/-- The name, the mode and type after a colon, and the value. -/
def Object.outline (o : Object String) : String :=
  o.name ++
  (if o.direction.isSome ∨ o.type.isSome then " :" else "") ++
  (o.direction.elim "" fun d => " " ++ d.keyword) ++
  (o.type.elim "" fun t => " " ++ t.text) ++
  (o.value.elim "" fun v => " := " ++ v.text)

def Object.row (depth : Nat) (o : Object String) : Row :=
  ⟨depth, o.kind.keyword ++ " " ++ o.outline⟩

def Subprogram.outline (d : Subprogram String) : String :=
  d.kind.keyword ++ " " ++ d.name ++
  (if d.params.isEmpty then ""
    else "(" ++ String.intercalate "; " (d.params.map Object.outline) ++ ")") ++
  (d.returnType.elim "" fun t => " return " ++ t.text)

def TypeDecl.outline (d : TypeDecl String) : String :=
  "type " ++ d.name ++
  match d.definition with
  | .enumeration literals => " is (" ++ String.intercalate ", " literals ++ ")"
  | .incomplete => ""
  | .verbatim e => " is " ++ e.text

def SubtypeDecl.outline (d : SubtypeDecl String) : String :=
  "subtype " ++ d.name ++ " is " ++ d.indication.text

def Component.rows (depth : Nat) (d : Component String) : List Row :=
  ⟨depth, "component " ++ d.name⟩ :: (d.generics ++ d.ports).map (Object.row (depth + 1))

/-- The row of a package itself. -/
def packageRow (depth : Nat) (name : String) (declarationsOnly : Bool) : Row :=
  ⟨depth, "package " ++ name ++ if declarationsOnly then "" else " (with body)"⟩

mutual

def Declaration.rows (depth : Nat) : Declaration String → List Row
  | .subprogram d => [⟨depth, d.outline⟩]
  | .type d => [⟨depth, d.outline⟩]
  | .subtype d => [⟨depth, d.outline⟩]
  | .constant d => [d.row depth]
  | .signal d => [d.row depth]
  | .variable d => [d.row depth]
  | .package ⟨name, only, ds, _⟩ =>
    packageRow depth name only :: Declaration.rowsOf (depth + 1) ds
  | .component d => d.rows depth

def Declaration.rowsOf (depth : Nat) : List (Declaration String) → List Row
  | [] => []
  | d :: ds => d.rows depth ++ Declaration.rowsOf depth ds

end

theorem Declaration.rowsOf_eq_flatMap (depth : Nat) (ds : List (Declaration String)) :
    Declaration.rowsOf depth ds = ds.flatMap (Declaration.rows depth) := by
  induction ds with
  | nil => rfl
  | cons d ds ih => simp [Declaration.rowsOf, ih]

def Package.rows (depth : Nat) (p : Package String) : List Row :=
  packageRow depth p.name p.declarationsOnly ::
    p.declarations.flatMap (Declaration.rows (depth + 1))

theorem Declaration.rows_package (depth : Nat) (p : Package String) :
    Declaration.rows depth (.package p) = Package.rows depth p := by
  simp [Declaration.rows, Package.rows, Declaration.rowsOf_eq_flatMap]

def Package.outline (p : Package String) : String := String.join ((Package.rows 0 p).map Row.render)

end VhdlLowering
