import VhdlLowering.Ast.Object

/-!
# Declarations and packages

A package is a named scope that lists declarations in source order; a declaration may itself be a
package. The type of names is a parameter: a tree over symbols is turned into a tree over texts by
`map`, and equality of trees is decidable whenever equality of names is.
-/

namespace VhdlLowering

inductive SubprogramKind where
  | function
  | procedure
deriving DecidableEq, Repr

def SubprogramKind.keyword : SubprogramKind → String
  | function => "function"
  | procedure => "procedure"

/-- The specification of a function or procedure; only a function has a return type. -/
structure Subprogram (ν : Type) where
  name : ν
  kind : SubprogramKind
  params : List (Object ν)
  returnType : Option Expr
  span : FileSpan
deriving DecidableEq, Repr

inductive TypeDefinition (ν : Type) where
  | enumeration (literals : List ν)
  | incomplete
  /-- Any other definition, as it is written. -/
  | verbatim (definition : Expr)
deriving DecidableEq, Repr

structure TypeDecl (ν : Type) where
  name : ν
  definition : TypeDefinition ν
  span : FileSpan
deriving DecidableEq, Repr

structure SubtypeDecl (ν : Type) where
  name : ν
  indication : Expr
  span : FileSpan
deriving DecidableEq, Repr

/-- The signature of a component. -/
structure Component (ν : Type) where
  name : ν
  generics : List (Object ν)
  ports : List (Object ν)
  span : FileSpan
deriving DecidableEq, Repr

/-- A named scope over declarations of type `δ`. -/
structure Scope (ν δ : Type) where
  name : ν
  /-- The scope holds declarations only and no statements. -/
  declarationsOnly : Bool
  declarations : List δ
  span : FileSpan
deriving DecidableEq, Repr

inductive Declaration (ν : Type) where
  | subprogram (d : Subprogram ν)
  | type (d : TypeDecl ν)
  | subtype (d : SubtypeDecl ν)
  | constant (d : Object ν)
  | signal (d : Object ν)
  | variable (d : Object ν)
  | package (d : Scope ν (Declaration ν))
  | component (d : Component ν)
deriving Repr

/-- A package is a scope over declarations. -/
abbrev Package (ν : Type) := Scope ν (Declaration ν)

namespace Declaration

variable {ν μ : Type}

mutual

def decEq [DecidableEq ν] : (c d : Declaration ν) → Decidable (c = d)
  | .subprogram c, d =>
    match d with
    | .subprogram d => decidable_of_iff (c = d) (by simp)
    | .type _ | .subtype _ | .constant _ | .signal _ | .variable _ | .package _ | .component _ =>
      isFalse (by simp)
  | .type c, d =>
    match d with
    | .type d => decidable_of_iff (c = d) (by simp)
    | .subprogram _ | .subtype _ | .constant _ | .signal _ | .variable _ | .package _
    | .component _ => isFalse (by simp)
  | .subtype c, d =>
    match d with
    | .subtype d => decidable_of_iff (c = d) (by simp)
    | .subprogram _ | .type _ | .constant _ | .signal _ | .variable _ | .package _
    | .component _ => isFalse (by simp)
  | .constant c, d =>
    match d with
    | .constant d => decidable_of_iff (c = d) (by simp)
    | .subprogram _ | .type _ | .subtype _ | .signal _ | .variable _ | .package _
    | .component _ => isFalse (by simp)
  | .signal c, d =>
    match d with
    | .signal d => decidable_of_iff (c = d) (by simp)
    | .subprogram _ | .type _ | .subtype _ | .constant _ | .variable _ | .package _
    | .component _ => isFalse (by simp)
  | .variable c, d =>
    match d with
    | .variable d => decidable_of_iff (c = d) (by simp)
    | .subprogram _ | .type _ | .subtype _ | .constant _ | .signal _ | .package _
    | .component _ => isFalse (by simp)
  | .component c, d =>
    match d with
    | .component d => decidable_of_iff (c = d) (by simp)
    | .subprogram _ | .type _ | .subtype _ | .constant _ | .signal _ | .variable _
    | .package _ => isFalse (by simp)
  | .package ⟨n, b, cs, s⟩, d =>
    match d with
    | .package ⟨m, b', ds, s'⟩ =>
      if h : n = m ∧ b = b' ∧ s = s' then
        match decEqList cs ds with
        | isTrue hc => isTrue (by rw [h.1, h.2.1, h.2.2, hc])
        | isFalse hc => isFalse (by simp [hc])
      else
        isFalse (by
          simp only [package.injEq, Scope.mk.injEq]
          exact fun e => h ⟨e.1, e.2.1, e.2.2.2⟩)
    | .subprogram _ | .type _ | .subtype _ | .constant _ | .signal _ | .variable _
    | .component _ => isFalse (by simp)

def decEqList [DecidableEq ν] : (cs ds : List (Declaration ν)) → Decidable (cs = ds)
  | [], [] => isTrue rfl
  | [], _ :: _ => isFalse (by simp)
  | _ :: _, [] => isFalse (by simp)
  | c :: cs, d :: ds =>
    match decEq c d with
    | isFalse h => isFalse (by simp [h])
    | isTrue h =>
      match decEqList cs ds with
      | isTrue hs => isTrue (by rw [h, hs])
      | isFalse hs => isFalse (by simp [hs])

end

instance [DecidableEq ν] : DecidableEq (Declaration ν) := decEq

/-- The declared name. -/
def name : Declaration ν → ν
  | .subprogram d => d.name
  | .type d => d.name
  | .subtype d => d.name
  | .constant d | .signal d | .variable d => d.name
  | .package d => d.name
  | .component d => d.name

/-- The keyword that opens the declaration. -/
def keyword : Declaration ν → String
  | .subprogram d => d.kind.keyword
  | .type _ => "type"
  | .subtype _ => "subtype"
  | .constant _ => "constant"
  | .signal _ => "signal"
  | .variable _ => "variable"
  | .package _ => "package"
  | .component _ => "component"

def span : Declaration ν → FileSpan
  | .subprogram d => d.span
  | .type d => d.span
  | .subtype d => d.span
  | .constant d | .signal d | .variable d => d.span
  | .package d => d.span
  | .component d => d.span

end Declaration

section Map

variable {ν μ : Type} (f : ν → μ)

def Subprogram.map (d : Subprogram ν) : Subprogram μ :=
  ⟨f d.name, d.kind, d.params.map (Object.map f), d.returnType, d.span⟩

def TypeDefinition.map : TypeDefinition ν → TypeDefinition μ
  | .enumeration literals => .enumeration (literals.map f)
  | .incomplete => .incomplete
  | .verbatim e => .verbatim e

def TypeDecl.map (d : TypeDecl ν) : TypeDecl μ := ⟨f d.name, d.definition.map f, d.span⟩

def SubtypeDecl.map (d : SubtypeDecl ν) : SubtypeDecl μ := ⟨f d.name, d.indication, d.span⟩

def Component.map (d : Component ν) : Component μ :=
  ⟨f d.name, d.generics.map (Object.map f), d.ports.map (Object.map f), d.span⟩

mutual

def Declaration.map : Declaration ν → Declaration μ
  | .subprogram d => .subprogram (d.map f)
  | .type d => .type (d.map f)
  | .subtype d => .subtype (d.map f)
  | .constant d => .constant (d.map f)
  | .signal d => .signal (d.map f)
  | .variable d => .variable (d.map f)
  | .package ⟨name, only, ds, span⟩ => .package ⟨f name, only, Declaration.mapList ds, span⟩
  | .component d => .component (d.map f)

def Declaration.mapList : List (Declaration ν) → List (Declaration μ)
  | [] => []
  | d :: ds => d.map :: Declaration.mapList ds

end

theorem Declaration.mapList_eq_map (ds : List (Declaration ν)) :
    Declaration.mapList f ds = ds.map (Declaration.map f) := by
  induction ds with
  | nil => rfl
  | cons d ds ih => simp [Declaration.mapList, ih]

def Package.map (p : Package ν) : Package μ :=
  ⟨f p.name, p.declarationsOnly, p.declarations.map (Declaration.map f), p.span⟩

theorem Declaration.map_package (p : Package ν) :
    Declaration.map f (.package p) = .package (Package.map f p) := by
  simp [Declaration.map, Package.map, Declaration.mapList_eq_map]

end Map

end VhdlLowering
