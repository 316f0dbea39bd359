import VhdlLowering.Ast.Declaration

/-!
# Names of a tree

The names of a tree in pre-order: the name of a declaration comes first, then the names inside it in
source order. The generics of a component come before its ports.
-/

namespace VhdlLowering

section Names

variable {ν : Type}

def Subprogram.names (d : Subprogram ν) : List ν := d.name :: d.params.map Object.name

/-- The literals of an enumeration; no other definition has names. -/
def TypeDefinition.names : TypeDefinition ν → List ν
  | .enumeration literals => literals
  | .incomplete | .verbatim _ => []

def TypeDecl.names (d : TypeDecl ν) : List ν := d.name :: d.definition.names

def Component.names (d : Component ν) : List ν :=
  d.name :: (d.generics.map Object.name ++ d.ports.map Object.name)

mutual

def Declaration.names : Declaration ν → List ν
  | .subprogram d => d.names
  | .type d => d.names
  | .subtype d => [d.name]
  | .constant d | .signal d | .variable d => [d.name]
  | .package ⟨name, _, ds, _⟩ => name :: Declaration.namesOf ds
  | .component d => d.names

def Declaration.namesOf : List (Declaration ν) → List ν
  | [] => []
  | d :: ds => d.names ++ Declaration.namesOf ds

end

theorem Declaration.namesOf_eq_flatMap (ds : List (Declaration ν)) :
    Declaration.namesOf ds = ds.flatMap Declaration.names := by
  induction ds with
  | nil => rfl
  | cons d ds ih => simp [Declaration.namesOf, ih]

def Package.names (p : Package ν) : List ν := p.name :: p.declarations.flatMap Declaration.names

theorem Declaration.names_package (p : Package ν) :
    Declaration.names (.package p) = Package.names p := by
  simp [Declaration.names, Package.names, Declaration.namesOf_eq_flatMap]

end Names

section Map

variable {ν μ : Type} (f : ν → μ)

theorem Object.map_name_map (os : List (Object ν)) :
    (os.map (Object.map f)).map Object.name = (os.map Object.name).map f := by
  simp [Object.map]

theorem Subprogram.names_map (d : Subprogram ν) : (d.map f).names = d.names.map f := by
  simp only [names, map, Object.map_name_map, List.map_cons]

theorem TypeDefinition.names_map (d : TypeDefinition ν) : (d.map f).names = d.names.map f := by
  cases d <;> rfl

theorem TypeDecl.names_map (d : TypeDecl ν) : (d.map f).names = d.names.map f := by
  simp only [names, map, TypeDefinition.names_map, List.map_cons]

theorem Component.names_map (d : Component ν) : (d.map f).names = d.names.map f := by
  simp only [names, map, Object.map_name_map, List.map_cons, List.map_append]

mutual

theorem Declaration.names_map : ∀ d : Declaration ν, (d.map f).names = d.names.map f
  | .subprogram d => d.names_map f
  | .type d => d.names_map f
  | .subtype _ => rfl
  | .constant _ | .signal _ | .variable _ => rfl
  | .package ⟨name, only, ds, span⟩ => by
    simp only [Declaration.map, Declaration.names, Declaration.namesOf_mapList ds, List.map_cons]
  | .component d => d.names_map f

theorem Declaration.namesOf_mapList : ∀ ds : List (Declaration ν),
    Declaration.namesOf (Declaration.mapList f ds) = (Declaration.namesOf ds).map f
  | [] => rfl
  | d :: ds => by
    simp only [Declaration.mapList, Declaration.namesOf, Declaration.names_map d,
      Declaration.namesOf_mapList ds, List.map_append]

end

theorem Package.names_map (p : Package ν) : names (map f p) = (names p).map f := by
  rw [← Declaration.names_package, ← Declaration.names_package, ← Declaration.map_package,
    Declaration.names_map]

end Map

end VhdlLowering
