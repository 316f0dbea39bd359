import VhdlLowering.Session

/-!
# Change of names

Changing the names of a tree twice is changing them once by the composition. A tree whose symbols
all have a name in a table is determined by the look-up.
-/

namespace VhdlLowering

section Composition

variable {ν μ ξ : Type} (f : ν → μ) (g : μ → ξ)

theorem Object.map_map (o : Object ν) : (o.map f).map g = o.map (g ∘ f) := rfl

theorem Object.map_map_list (os : List (Object ν)) :
    (os.map (Object.map f)).map (Object.map g) = os.map (Object.map (g ∘ f)) := by
  rw [List.map_map]
  rfl

theorem Subprogram.map_map (d : Subprogram ν) : (d.map f).map g = d.map (g ∘ f) := by
  simp only [Subprogram.map, Object.map_map_list, Function.comp]

theorem TypeDefinition.map_map (d : TypeDefinition ν) : (d.map f).map g = d.map (g ∘ f) := by
  cases d with
  | enumeration literals => simp only [TypeDefinition.map, List.map_map]
  | incomplete => rfl
  | verbatim e => rfl

theorem TypeDecl.map_map (d : TypeDecl ν) : (d.map f).map g = d.map (g ∘ f) := by
  simp only [TypeDecl.map, TypeDefinition.map_map, Function.comp]

theorem SubtypeDecl.map_map (d : SubtypeDecl ν) : (d.map f).map g = d.map (g ∘ f) := rfl

theorem Component.map_map (d : Component ν) : (d.map f).map g = d.map (g ∘ f) := by
  simp only [Component.map, Object.map_map_list, Function.comp]

mutual

theorem Declaration.map_map : ∀ d : Declaration ν, (d.map f).map g = d.map (g ∘ f)
  | .subprogram d => by simp only [Declaration.map, Subprogram.map_map]
  | .type d => by simp only [Declaration.map, TypeDecl.map_map]
  | .subtype d => by simp only [Declaration.map, SubtypeDecl.map_map]
  | .constant d => by simp only [Declaration.map, Object.map_map]
  | .signal d => by simp only [Declaration.map, Object.map_map]
  | .variable d => by simp only [Declaration.map, Object.map_map]
  | .package ⟨name, only, ds, span⟩ => by
    simp only [Declaration.map, Declaration.mapList_mapList ds, Function.comp]
  | .component d => by simp only [Declaration.map, Component.map_map]

theorem Declaration.mapList_mapList : ∀ ds : List (Declaration ν),
    Declaration.mapList g (Declaration.mapList f ds) = Declaration.mapList (g ∘ f) ds
  | [] => rfl
  | d :: ds => by
    simp only [Declaration.mapList, Declaration.map_map d, Declaration.mapList_mapList ds]

end

theorem Package.map_map (p : Package ν) :
    Package.map g (Package.map f p) = Package.map (g ∘ f) p := by
  simp only [Package.map, List.map_map, Function.comp_def, Declaration.map_map]

theorem Product.map_map (p : Product ν) : (p.map f).map g = p.map (g ∘ f) := by
  cases p with
  | package p => simp only [Product.map, Package.map_map]
  | component c => simp only [Product.map, Component.map_map]
  | packages ps => simp only [Product.map, List.map_map, Function.comp_def, Package.map_map]

end Composition

section Identity

variable {ν : Type}

theorem Object.map_id_list (os : List (Object ν)) : os.map (Object.map id) = os :=
  List.map_id os

theorem Subprogram.map_id (d : Subprogram ν) : d.map id = d := by
  simp only [Subprogram.map, Object.map_id_list, id]

theorem TypeDecl.map_id (d : TypeDecl ν) : d.map id = d := by
  obtain ⟨name, definition, span⟩ := d
  cases definition with
  | enumeration literals => simp only [TypeDecl.map, TypeDefinition.map, List.map_id, id]
  | incomplete => rfl
  | verbatim e => rfl

theorem Component.map_id (d : Component ν) : d.map id = d := by
  simp only [Component.map, Object.map_id_list, id]

mutual

theorem Declaration.map_id : ∀ d : Declaration ν, d.map id = d
  | .subprogram d => by simp only [Declaration.map, Subprogram.map_id]
  | .type d => by simp only [Declaration.map, TypeDecl.map_id]
  | .subtype d => rfl
  | .constant d => rfl
  | .signal d => rfl
  | .variable d => rfl
  | .package ⟨name, only, ds, span⟩ => by
    simp only [Declaration.map, Declaration.mapList_id ds, id]
  | .component d => by simp only [Declaration.map, Component.map_id]

theorem Declaration.mapList_id : ∀ ds : List (Declaration ν), Declaration.mapList id ds = ds
  | [] => rfl
  | d :: ds => by simp only [Declaration.mapList, Declaration.map_id d, Declaration.mapList_id ds]

end

theorem Package.map_id (p : Package ν) : Package.map id p = p := by
  simp only [Package.map, id, funext Declaration.map_id, List.map_id']

theorem Product.map_id (p : Product ν) : p.map id = p := by
  cases p with
  | package p => simp only [Product.map, Package.map_id]
  | component c => simp only [Product.map, Component.map_id]
  | packages ps => simp only [Product.map, funext Package.map_id, List.map_id']

end Identity

/-- If every symbol of a tree has a name, the names it is shown with are those. -/
theorem Product.map_nameOf {t : NameTable} {p : Product Symbol} {q : Product String}
    (h : p.map t.resolve? = q.map some) : p.map t.nameOf = q := by
  have hget := congrArg (Product.map fun s : Option String => s.getD "") h
  rw [Product.map_map, Product.map_map] at hget
  exact hget.trans q.map_id

end VhdlLowering
