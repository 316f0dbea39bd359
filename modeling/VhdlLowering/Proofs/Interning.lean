import VhdlLowering.Ast.Names
import VhdlLowering.Proofs.Steps

/-!
# What is interned

A tree that is handed out tells exactly what was interned for it: its names in pre-order. Nothing is
interned for a construct that is skipped or not looked at.
-/

namespace VhdlLowering

/-- What is traced may be a name. -/
class TracesNames (τ : Type) where
  name? : τ → Option String

instance : TracesNames String := ⟨some⟩

instance : TracesNames Event := ⟨Event.name?⟩

namespace Traced

variable {τ α β γ : Type} [TracesNames τ]

/-- The names met, in order. -/
def met (x : Traced τ α) : List String := x.trace.filterMap TracesNames.name?

theorem met_bind_of_ok {x : Traced τ α} {a : α} (p : α → Traced τ β) (h : x.result = .ok a) :
    (x >>= p).met = x.met ++ (p a).met := by
  rw [met, trace_bind_of_ok p h, List.filterMap_append]
  rfl

/-- The names `before` and those that a successful `x` meets are the names in what it gives. -/
def Meets (before : List String) (names : α → List String) (x : Traced τ α) : Prop :=
  ∀ a, x.result = .ok a → before ++ x.met = names a

variable {before : List String} {names : α → List String}

theorem meets_pure {a : α} (h : before = names a) :
    Meets before names (pure a : Traced τ α) := by
  rintro _ ⟨⟩
  rw [← h]
  exact List.append_nil before

theorem meets_fail (d : Defect) : Meets before names (fail d : Traced τ α) := by
  intro a h
  cases h

theorem Meets.bind {x : Traced τ α} {p : α → Traced τ β} {names' : β → List String}
    (hx : Meets [] names x)
    (hp : ∀ a, x.result = .ok a → Meets (before ++ names a) names' (p a)) :
    Meets before names' (x >>= p) := by
  intro b hb
  obtain ⟨a, ha, hb⟩ := result_bind_eq_ok.mp hb
  have hfirst : x.met = names a := hx a ha
  have hrest := hp a ha b hb
  rw [met_bind_of_ok p ha, hfirst, ← List.append_assoc]
  exact hrest

theorem Meets.map {x : Traced τ α} {f : α → β} {names' : β → List String} (hx : Meets [] names x)
    (h : ∀ a, before ++ names a = names' (f a)) : Meets before names' (f <$> x) := by
  rw [map_eq_pure_bind]
  exact hx.bind fun a _ => meets_pure (h a)

theorem meets_mapM {p : γ → Traced τ α} {cs : List γ} (h : ∀ c ∈ cs, Meets [] names (p c)) :
    Meets [] (List.flatMap names) (cs.mapM p) := by
  induction cs with
  | nil => exact meets_pure rfl
  | cons c cs ih =>
    obtain ⟨hc, hcs⟩ := List.forall_mem_cons.mp h
    rw [List.mapM_cons]
    exact hc.bind fun a _ => (ih hcs).bind fun as _ => meets_pure rfl

theorem meets_read {x : Naming α} (h : Meets before names x) :
    Meets before names (read x : Lowering α) := by
  have hmet : (read x : Lowering α).met = x.met := by
    change (x.trace.map Event.name).filterMap Event.name? = x.trace.filterMap some
    rw [List.filterMap_map]
    rfl
  intro a ha
  rw [hmet]
  exact h a ha

end Traced

open Traced

theorem meets_intern (s : String) : Meets [] List.singleton (intern s : Naming String) := by
  rintro _ ⟨⟩
  rfl

theorem meets_require {α : Type} (x : Option α) (d : Defect) :
    Meets [] (fun _ => []) (require x d : Naming α) := by
  cases x with
  | none => exact meets_fail d
  | some a => exact meets_pure rfl

namespace Node

variable (file : FileId) (n : Node)

theorem meets_ensure (r : Rule) : Meets [] (fun _ => []) (n.ensure r : Naming Unit) := by
  unfold ensure
  split
  · exact meets_pure rfl
  · exact meets_fail _

theorem meets_required (r : Rule) : Meets [] (fun _ => []) (n.required r : Naming Node) :=
  meets_require _ _

theorem meets_nameBy (ident : Node) : Meets [] List.singleton (n.nameBy ident : Naming String) := by
  unfold nameBy
  split
  · exact meets_fail _
  · exact meets_intern _

theorem meets_name : Meets [] List.singleton (n.name : Naming String) :=
  (n.meets_required _).bind fun ident _ => n.meets_nameBy ident

theorem meets_names : Meets [] id (n.names : Naming (List String)) := by
  apply (meets_mapM fun ident _ => n.meets_nameBy ident).bind
  intro names _
  split
  · exact meets_fail _
  · exact meets_pure (List.flatMap_singleton' names)

end Node

theorem Object.meets_ofNode (file : FileId) (kind : ObjectKind) (n : Node) :
    Meets [] (List.map Object.name)
      (Object.ofNode file kind n : Naming (List (Object String))) := by
  apply n.meets_names.bind
  intro names _
  apply (n.meets_required _).bind
  intro type _
  apply meets_pure
  rw [map_name_forNames]
  simp

theorem Node.meets_direction (kind : ObjectKind) (n : Node) :
    Meets [] (fun _ => []) (n.direction kind : Naming (Option Direction)) := by
  unfold direction
  split
  · split
    · exact meets_pure rfl
    · exact meets_fail _
  · split <;> exact meets_pure rfl

theorem Node.meets_interfaceObjects (file : FileId) (kind : ObjectKind) (n : Node) :
    Meets [] (List.map Object.name)
      (n.interfaceObjects file kind : Naming (List (Object String))) := by
  apply n.meets_names.bind
  intro names _
  apply (n.meets_direction kind).bind
  intro direction _
  apply (n.meets_required _).bind
  intro type _
  apply meets_pure
  rw [Object.map_name_forNames]
  simp

namespace InterfaceList

theorem meets_itemObjects (file : FileId) (kind : ObjectKind) (item : InterfaceItem) :
    Meets [] (List.map Object.name)
      (itemObjects file kind item : Naming (List (Object String))) := by
  cases item with
  | object n => exact n.meets_interfaceObjects file kind
  | other n => exact meets_pure rfl

theorem meets_ofNode (file : FileId) (kind : ObjectKind) (clause : Node) :
    Meets [] (fun l => l.objects.map Object.name)
      (ofNode file kind clause : Naming (InterfaceList String)) := by
  apply (meets_mapM fun item _ => meets_itemObjects file kind item).bind
  intro objects _
  apply meets_pure
  rw [List.map_flatten, List.nil_append, List.flatMap_def]

theorem meets_ofChild (file : FileId) (kind : ObjectKind) (clause : Rule) (n : Node) :
    Meets [] (fun l => l.objects.map Object.name)
      (ofChild file kind clause n : Naming (InterfaceList String)) := by
  unfold ofChild
  split
  · exact meets_ofNode file kind _
  · exact meets_pure rfl

end InterfaceList

namespace Node

variable (file : FileId) (n : Node)

theorem meets_subprogramParts : Meets [] (fun _ => []) (n.subprogramParts : Naming _) := by
  unfold subprogramParts
  split
  · exact meets_pure rfl
  · exact meets_pure rfl
  · exact meets_fail _

theorem meets_designator : Meets [] List.singleton (n.designator : Naming String) := by
  unfold designator
  split
  · exact n.meets_nameBy _
  · exact n.meets_name

theorem meets_parameters :
    Meets [] (List.map Object.name) (n.parameters file : Naming (List (Object String))) := by
  unfold parameters
  split
  · exact meets_pure rfl
  · apply (InterfaceList.meets_ofNode file _ _).bind
    intro params _
    split
    · exact meets_pure rfl
    · exact meets_fail _

theorem meets_returnType (kind : SubprogramKind) :
    Meets [] (fun _ => []) (n.returnType file kind : Naming (Option Expr)) := by
  cases kind with
  | function => exact (meets_require _ _).bind fun mark _ => meets_pure rfl
  | procedure => exact meets_pure rfl

theorem meets_typeDefinition :
    Meets [] TypeDefinition.names (n.typeDefinition file : Naming (TypeDefinition String)) := by
  unfold typeDefinition
  split
  · exact meets_pure rfl
  · split
    · exact (meets_mapM fun c _ => meets_intern c.sourceText).map fun literals =>
        List.flatMap_singleton' literals
    · exact meets_pure rfl
    · exact meets_pure rfl

end Node

theorem Subprogram.meets_ofNode (file : FileId) (n : Node) :
    Meets [] names (Subprogram.ofNode file n : Naming (Subprogram String)) := by
  apply (n.meets_required _).bind
  intro outer _
  apply outer.meets_subprogramParts.bind
  intro parts _
  obtain ⟨kind, spec⟩ := parts
  apply spec.meets_designator.bind
  intro name _
  apply (spec.meets_parameters file).bind
  intro params _
  apply (spec.meets_returnType file kind).bind
  intro type _
  apply meets_pure
  simp [names, List.singleton]

theorem TypeDecl.meets_ofNode (file : FileId) (n : Node) :
    Meets [] names (TypeDecl.ofNode file n : Naming (TypeDecl String)) := by
  apply n.typeParts.meets_name.bind
  intro name _
  apply (n.typeParts.meets_typeDefinition file).bind
  intro definition _
  exact meets_pure rfl

theorem SubtypeDecl.meets_ofNode (file : FileId) (n : Node) :
    Meets [] (fun d => [d.name]) (SubtypeDecl.ofNode file n : Naming (SubtypeDecl String)) := by
  apply n.meets_name.bind
  intro name _
  apply (n.meets_required _).bind
  intro indication _
  exact meets_pure rfl

section Scopes

variable (ctx : Context) (n : Node)

theorem Node.meets_skipAs (label : String) :
    Meets [] (fun _ => []) (n.skipAs label : Lowering Unit) := by
  rintro _ ⟨⟩
  rfl

theorem Node.meets_forM_skipAs (label : String) (ns : List Node) :
    Meets [] (fun _ => []) (ns.forM (Node.skipAs label) : Lowering Unit) := by
  induction ns with
  | nil => exact meets_pure rfl
  | cons n ns ih => exact (n.meets_skipAs label).bind fun _ _ => ih

theorem Node.meets_skipHeader : Meets [] (fun _ => []) (n.skipHeader : Lowering Unit) := by
  have hchild (o : Option Node) (label : String) :
      Meets [] (fun _ => []) (o.forM (skipAs label) : Lowering Unit) := by
    cases o with
    | none => exact meets_pure rfl
    | some c => exact c.meets_skipAs label
  unfold skipHeader
  split
  · exact meets_pure rfl
  · exact (hchild _ _).bind fun _ _ => hchild _ _

theorem Component.meets_ofNode :
    Meets [] names (Component.ofNode ctx n : Lowering (Component String)) := by
  apply (meets_read (n.meets_ensure _)).bind
  intro _ _
  apply (meets_read n.meets_name).bind
  intro name _
  split
  · exact meets_pure rfl
  · apply (meets_read (InterfaceList.meets_ofChild ctx.file _ _ n)).bind
    intro generics _
    apply (meets_read (InterfaceList.meets_ofChild ctx.file _ _ n)).bind
    intro ports _
    apply (Node.meets_forM_skipAs _ _).bind
    intro _ _
    apply meets_pure
    simp [names, List.singleton]

/-- The names met in an item are those that it declares, if that is so for the packages in it. -/
theorem DeclarativeItem.meets_lower (item : DeclarativeItem)
    (hpackage : Meets [] Package.names (Package.ofNode ctx item.node : Lowering (Package String))) :
    Meets [] (List.flatMap Declaration.names)
      (item.lower ctx : Lowering (List (Declaration String))) := by
  have hobjects (d : Object String → Declaration String) (hd : ∀ o, (d o).names = [o.name])
      (os : List (Object String)) :
      [] ++ os.map Object.name = (os.map d).flatMap Declaration.names := by
    rw [List.nil_append, List.flatMap_map, List.map_eq_flatMap]
    simp only [hd]
  rw [lower]
  cases item.role with
  | subprogram =>
    apply (meets_read (Subprogram.meets_ofNode ctx.file _)).bind
    exact fun d _ => meets_pure (List.flatMap_singleton ..).symm
  | package =>
    apply hpackage.bind
    intro p _
    apply meets_pure
    simp [Declaration.names_package]
  | type =>
    apply (meets_read (TypeDecl.meets_ofNode ctx.file _)).bind
    exact fun d _ => meets_pure (List.flatMap_singleton ..).symm
  | subtype =>
    apply (meets_read (SubtypeDecl.meets_ofNode ctx.file _)).bind
    exact fun d _ => meets_pure rfl
  | constant =>
    apply (meets_read (Object.meets_ofNode ctx.file _ _)).bind
    exact fun os _ => meets_pure (hobjects .constant (fun _ => rfl) os)
  | signal =>
    apply (meets_read (Object.meets_ofNode ctx.file _ _)).bind
    exact fun os _ => meets_pure (hobjects .signal (fun _ => rfl) os)
  | «variable» =>
    apply (meets_read (Object.meets_ofNode ctx.file _ _)).bind
    exact fun os _ => meets_pure (hobjects .variable (fun _ => rfl) os)
  | component =>
    apply (Component.meets_ofNode ctx _).bind
    exact fun d _ => meets_pure (List.flatMap_singleton ..).symm
  | unsupported u => exact (item.node.meets_skipAs _).bind fun _ _ => meets_pure rfl

theorem Package.meets_ofNode :
    Meets [] names (Package.ofNode ctx n : Lowering (Package String)) := by
  induction n using Node.packageInduction with
  | h n ih =>
    rw [ofNode]
    apply (meets_read (n.meets_ensure _)).bind
    intro _ _
    apply (meets_read n.meets_name).bind
    intro name _
    split
    · exact meets_pure rfl
    · apply n.meets_skipHeader.bind
      intro _ _
      have hdeclarations : Meets [] (List.flatMap Declaration.names)
          (declarationsOf ctx n.packageItems : Lowering (List (Declaration String))) := by
        rw [declarationsOf_eq_mapM]
        refine (meets_mapM fun c hc => DeclarativeItem.meets_lower ctx _ (ih c hc)).map fun dss => ?_
        rw [List.nil_append, List.flatten_eq_flatMap, List.flatMap_assoc]
        rfl
      exact hdeclarations.bind fun ds _ => meets_pure rfl

namespace DesignFile

theorem meets_lowerPart :
    Meets [] (List.flatMap Package.names) (lowerPart ctx n : Lowering (List (Package String))) := by
  unfold lowerPart
  split
  · exact (Node.meets_forM_skipAs _ _).bind fun _ _ => meets_pure rfl
  · exact (n.meets_skipAs _).bind fun _ _ => meets_pure rfl
  · exact (n.meets_skipAs _).bind fun _ _ => meets_pure rfl
  · exact (n.meets_skipAs _).bind fun _ _ => meets_pure rfl
  · split
    · apply (Package.meets_ofNode ctx _).bind
      exact fun p _ => meets_pure (List.flatMap_singleton ..).symm
    · exact (n.libraryUnit.meets_skipAs _).bind fun _ _ => meets_pure rfl

theorem meets_lower :
    Meets [] (List.flatMap Package.names) (lower ctx n : Lowering (List (Package String))) := by
  apply (meets_read (n.meets_ensure _)).bind
  intro _ _
  apply (meets_mapM fun c _ => meets_lowerPart ctx c).bind
  intro pss _
  apply meets_pure
  rw [List.nil_append, List.nil_append, List.flatten_eq_flatMap, List.flatMap_assoc]
  rfl

end DesignFile

end Scopes

namespace Product

variable {ν μ : Type}

def names : Product ν → List ν
  | package p => Package.names p
  | component c => c.names
  | packages ps => ps.flatMap Package.names

theorem names_map (f : ν → μ) (p : Product ν) : (p.map f).names = p.names.map f := by
  cases p with
  | package p => exact Package.names_map f p
  | component c => exact c.names_map f
  | packages ps =>
    simp [names, map, List.flatMap_map, List.map_flatMap, Package.names_map]

end Product

theorem Target.meets_lower (ctx : Context) (n : Node) (target : Target) :
    Meets [] Product.names (target.lower ctx n : Lowering (Product String)) := by
  cases target with
  | package => exact (Package.meets_ofNode ctx n).map fun p => rfl
  | component => exact (Component.meets_ofNode ctx n).map fun c => rfl
  | designFile => exact (DesignFile.meets_lower ctx n).map fun ps => rfl

namespace Session

/-- When a tree is handed out, the table has grown by its names in pre-order, each at its first
occurrence and only if it is new. -/
theorem names_interned {s : Session} {target : Target} {ctx : Context} {n : Node}
    {p : Product Symbol} (h : (s.step (.lower target ctx n)).1 = .ok (some p)) :
    let after := (s.step (.lower target ctx n)).2.names
    ∃ texts : List String,
      p.names.map after.resolve? = texts.map some ∧
      after.names = s.names.names ++ (texts.filter (· ∉ s.names.names)).eraseDups ∧
      ∀ text, text ∈ after.names ↔ text ∈ s.names.names ∨ text ∈ texts := by
  intro after
  obtain ⟨q, hq, hnames⟩ := result_of_step h
  have hmet := Target.meets_lower ctx n target q hq
  have hafter : after = s.names.internAll q.names := by
    rw [← hmet]
    exact s.names_step _
  refine ⟨q.names, ?_, ?_, ?_⟩
  · rw [← Product.names_map, hnames, Product.names_map]
  · rw [hafter, NameTable.names_internAll]
  · intro text
    rw [hafter, NameTable.mem_names_internAll]

/-- A package with a function, an alias and an enumeration, in which a name occurs twice. -/
def repeatedNames : Node :=
  let ident (s : String) : Node := .leaf (.rule .identifier) ⟨0, 1⟩ s
  let bit : Node := .leaf (.rule .typeMark) ⟨1, 2⟩ "bit"
  let param : Node := .branch (.rule .interfaceConstantDeclaration) ⟨2, 4⟩
    [.branch (.rule .identifierList) ⟨2, 3⟩ [ident "a", ident "b"],
      .leaf (.rule .subtypeIndication) ⟨3, 4⟩ "bit"]
  let function : Node := .branch (.rule .functionSpecification) ⟨1, 5⟩
    [ident "f", .branch (.rule .formalParameterList) ⟨2, 4⟩ [param], bit]
  let subprogram : Node := .branch (.rule .subprogramDeclaration) ⟨1, 5⟩
    [.branch (.rule .subprogramSpecification) ⟨1, 5⟩ [function]]
  let skipped : Node := .branch (.rule .aliasDeclaration) ⟨5, 6⟩ [ident "x"]
  let type : Node := .branch (.rule .typeDeclaration) ⟨6, 9⟩
    [ident "t", .branch (.rule .enumerationTypeDefinition) ⟨7, 9⟩ [ident "b", ident "c"]]
  .branch (.rule .packageDeclaration) ⟨0, 9⟩
    [ident "p", .branch (.rule .packageDeclarativePart) ⟨1, 9⟩ [subprogram, skipped, type]]

/-- A session in which two names were interned before. -/
def busySession : Session := ⟨NameTable.empty.internAll ["c", "z"], []⟩

theorem repeatedNames_interned :
    ∃ p, (busySession.step (.lower .package ⟨⟨0⟩, false⟩ repeatedNames)).1 = .ok (some p) ∧
      let after := (busySession.step (.lower .package ⟨⟨0⟩, false⟩ repeatedNames)).2.names
      ∃ texts : List String,
        p.names.map after.resolve? = texts.map some ∧
        after.names = busySession.names.names ++
          (texts.filter (· ∉ busySession.names.names)).eraseDups ∧
        ∀ text, text ∈ after.names ↔ text ∈ busySession.names.names ∨ text ∈ texts := by
  obtain ⟨p, hp⟩ : ∃ p,
      (busySession.step (.lower .package ⟨⟨0⟩, false⟩ repeatedNames)).1 = .ok (some p) :=
    step_succeeds_iff.mpr (by decide +kernel)
  exact ⟨p, hp, names_interned hp⟩

example : (busySession.step (.lower .package ⟨⟨0⟩, false⟩ repeatedNames)).2.names.names =
    ["c", "z", "p", "f", "a", "b", "t"] := by
  decide +kernel

end Session
end VhdlLowering
