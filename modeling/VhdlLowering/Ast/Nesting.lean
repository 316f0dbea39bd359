import VhdlLowering.Ast.Declaration

/-!
# Headings and how they are nested

A package declares things that declare others in turn: a nested package the things that stand in it,
a component its generics and ports. Each of them has a heading, a keyword and a name, and the
headings form a tree. The keyword of an object is that of its own kind, whatever declares it.
-/

namespace VhdlLowering

/-- Labels with other labels below them, in order. -/
inductive Nest (α : Type) where
  | node (label : α) (below : List (Nest α))

namespace Nest

variable {α β : Type}

mutual

/-- The labels in pre-order, each with its level. -/
def levels (level : Nat) : Nest α → List (Nat × α)
  | node label below => (level, label) :: levelsOf (level + 1) below

def levelsOf (level : Nat) : List (Nest α) → List (Nat × α)
  | [] => []
  | n :: ns => levels level n ++ levelsOf level ns

end

mutual

def map (f : α → β) : Nest α → Nest β
  | node label below => node (f label) (mapList f below)

def mapList (f : α → β) : List (Nest α) → List (Nest β)
  | [] => []
  | n :: ns => map f n :: mapList f ns

end

mutual

theorem levels_map (f : α → β) (level : Nat) : ∀ n : Nest α,
    levels level (map f n) = (levels level n).map (Prod.map id f)
  | node label below => by
    rw [map, levels, levels, levelsOf_mapList f (level + 1) below, List.map_cons]
    rfl

theorem levelsOf_mapList (f : α → β) (level : Nat) : ∀ ns : List (Nest α),
    levelsOf level (mapList f ns) = (levelsOf level ns).map (Prod.map id f)
  | [] => rfl
  | n :: ns => by
    rw [mapList, levelsOf, levelsOf, levels_map f level n, levelsOf_mapList f level ns,
      List.map_append]

end

end Nest

/-- How a declared thing is announced. -/
structure Heading (ν : Type) where
  keyword : String
  name : ν

section Headings

variable {ν μ : Type}

def Heading.map (f : ν → μ) (h : Heading ν) : Heading μ := ⟨h.keyword, f h.name⟩

def Object.heading (o : Object ν) : Heading ν := ⟨o.kind.keyword, o.name⟩

/-- The generics and ports of a component, in this order. -/
def Component.objects (c : Component ν) : List (Object ν) := c.generics ++ c.ports

mutual

/-- The headings of a declaration and of what it declares. -/
def Declaration.nest : Declaration ν → Nest (Heading ν)
  | .subprogram d => .node ⟨d.kind.keyword, d.name⟩ []
  | .type d => .node ⟨"type", d.name⟩ []
  | .subtype d => .node ⟨"subtype", d.name⟩ []
  | .constant o | .signal o | .variable o => .node o.heading []
  | .package ⟨name, _, ds, _⟩ => .node ⟨"package", name⟩ (Declaration.nests ds)
  | .component c => .node ⟨"component", c.name⟩ (c.objects.map fun o => .node o.heading [])

def Declaration.nests : List (Declaration ν) → List (Nest (Heading ν))
  | [] => []
  | d :: ds => d.nest :: Declaration.nests ds

end

def Package.nest (p : Package ν) : Nest (Heading ν) :=
  .node ⟨"package", p.name⟩ (Declaration.nests p.declarations)

/-- The tree of keywords. -/
def Package.keywords (p : Package ν) : Nest String := (Package.nest p).map Heading.keyword

mutual

/-- The number of headings of a declaration: its own, and those of what it declares. -/
def Declaration.headingCount : Declaration ν → Nat
  | .subprogram _ | .type _ | .subtype _ | .constant _ | .signal _ | .variable _ => 1
  | .package ⟨_, _, ds, _⟩ => 1 + Declaration.headingCountOf ds
  | .component c => 1 + c.generics.length + c.ports.length

def Declaration.headingCountOf : List (Declaration ν) → Nat
  | [] => 0
  | d :: ds => d.headingCount + Declaration.headingCountOf ds

end

/-- The number of headings of a package: its own, one for each declaration at any depth, and one for
each generic and port of a component. -/
def Package.headingCount (p : Package ν) : Nat := 1 + Declaration.headingCountOf p.declarations

/-- `Nested p level before q` says that `q` is a package inside `p`, so many levels down and behind
so many headings. -/
inductive Package.Nested (p : Package ν) : Nat → Nat → Package ν → Prop
  | self : Nested p 0 0 p
  | inner {level before : Nat} {q r : Package ν} {ds es : List (Declaration ν)}
      (hq : Nested p level before q) (hr : q.declarations = ds ++ .package r :: es) :
      Nested p (level + 1) (before + 1 + Declaration.headingCountOf ds) r

variable (f : ν → μ)

theorem Component.objects_map (c : Component ν) :
    (c.map f).objects = c.objects.map (Object.map f) := by
  simp [objects, map]

mutual

theorem Declaration.nest_map : ∀ d : Declaration ν, (d.map f).nest = d.nest.map (Heading.map f)
  | .subprogram _ | .type _ | .subtype _ | .constant _ | .signal _ | .variable _ => rfl
  | .package ⟨_, _, ds, _⟩ => by
    rw [Declaration.map, nest, nest, Nest.map, Declaration.nests_mapList ds]
    rfl
  | .component c => by
    have hobjects (os : List (Object ν)) :
        (os.map (Object.map f)).map (fun o => Nest.node o.heading []) =
          Nest.mapList (Heading.map f) (os.map fun o => Nest.node o.heading []) := by
      induction os with
      | nil => rfl
      | cons o os ih =>
        rw [List.map_cons, List.map_cons, List.map_cons, Nest.mapList, ih]
        rfl
    rw [Declaration.map, nest, nest, Nest.map, Component.objects_map, hobjects]
    rfl

theorem Declaration.nests_mapList : ∀ ds : List (Declaration ν),
    Declaration.nests (Declaration.mapList f ds) =
      Nest.mapList (Heading.map f) (Declaration.nests ds)
  | [] => rfl
  | d :: ds => by
    rw [Declaration.mapList, nests, nests, Nest.mapList, Declaration.nest_map d,
      Declaration.nests_mapList ds]

end

theorem Package.nest_map (p : Package ν) :
    nest (map f p) = (nest p).map (Heading.map f) := by
  rw [nest, nest, Nest.map, ← Declaration.nests_mapList, Declaration.mapList_eq_map]
  rfl

mutual

theorem Declaration.headingCount_map : ∀ d : Declaration ν, (d.map f).headingCount = d.headingCount
  | .subprogram _ | .type _ | .subtype _ | .constant _ | .signal _ | .variable _ => rfl
  | .package ⟨_, _, ds, _⟩ => by
    rw [Declaration.map, headingCount, headingCount, Declaration.headingCountOf_mapList ds]
  | .component c => by simp [Declaration.map, headingCount, Component.map]

theorem Declaration.headingCountOf_mapList : ∀ ds : List (Declaration ν),
    Declaration.headingCountOf (Declaration.mapList f ds) = Declaration.headingCountOf ds
  | [] => rfl
  | d :: ds => by
    rw [Declaration.mapList, headingCountOf, headingCountOf, Declaration.headingCount_map d,
      Declaration.headingCountOf_mapList ds]

end

theorem Package.headingCount_map (p : Package ν) : headingCount (map f p) = headingCount p := by
  rw [headingCount, headingCount, ← Declaration.headingCountOf_mapList f,
    Declaration.mapList_eq_map]
  rfl

theorem Package.Nested.map {p q : Package ν} {level before : Nat} (h : p.Nested level before q) :
    Nested (Package.map f p) level before (Package.map f q) := by
  induction h with
  | self => exact .self
  | @inner _ _ q r ds es _ hr ih =>
    have hmap : (Package.map f q).declarations =
        Declaration.mapList f ds ++ .package (Package.map f r) :: Declaration.mapList f es := by
      simp [Package.map, hr, Declaration.mapList_eq_map, Declaration.map_package]
    rw [← Declaration.headingCountOf_mapList f ds]
    exact .inner ih hmap

end Headings

end VhdlLowering
