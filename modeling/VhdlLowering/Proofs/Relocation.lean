import VhdlLowering.Proofs.Acceptance
import VhdlLowering.Proofs.Resolution
import VhdlLowering.Proofs.Shifting

/-!
# Lowering in another place

A tree may come from another file, and it may stand further on in it. Lowering it there is lowering
it here and moving all positions of what comes out: those in the tree that is handed out, in the
entries of the log and in a defect. Names, texts and everything else stay as they are.
-/

namespace VhdlLowering

/-- Another file, and how much further on a text stands in it. -/
structure Relocation where
  file : FileId
  offset : Nat

/-- Data that may tell positions. -/
class Relocatable (α : Type) where
  relocate : Relocation → α → α

export Relocatable (relocate)

section Data

variable {α ν : Type} (ρ : Relocation)

instance : Relocatable Unit := ⟨fun _ u => u⟩

instance : Relocatable String := ⟨fun _ s => s⟩

instance : Relocatable Direction := ⟨fun _ d => d⟩

instance [Relocatable α] : Relocatable (Option α) := ⟨fun ρ => Option.map (relocate ρ)⟩

instance [Relocatable α] : Relocatable (List α) := ⟨fun ρ => List.map (relocate ρ)⟩

instance : Relocatable Node := ⟨fun ρ => Node.shift ρ.offset⟩

instance : Relocatable (SubprogramKind × Node) := ⟨fun ρ parts => (parts.1, relocate ρ parts.2)⟩

instance : Relocatable FileSpan := ⟨fun ρ s => ⟨ρ.file, s.span.shift ρ.offset⟩⟩

instance : Relocatable Expr := ⟨fun ρ e => { e with span := relocate ρ e.span }⟩

instance : Relocatable (Object ν) where
  relocate ρ o :=
    { o with type := relocate ρ o.type, value := relocate ρ o.value, span := relocate ρ o.span }

instance : Relocatable (InterfaceList ν) :=
  ⟨fun ρ l => ⟨relocate ρ l.objects, relocate ρ l.others⟩⟩

instance : Relocatable (Subprogram ν) where
  relocate ρ d :=
    { d with
      params := relocate ρ d.params
      returnType := relocate ρ d.returnType
      span := relocate ρ d.span }

instance : Relocatable (TypeDefinition ν) where
  relocate
    | _, .enumeration literals => .enumeration literals
    | _, .incomplete => .incomplete
    | ρ, .verbatim e => .verbatim (relocate ρ e)

instance : Relocatable (TypeDecl ν) :=
  ⟨fun ρ d => { d with definition := relocate ρ d.definition, span := relocate ρ d.span }⟩

instance : Relocatable (SubtypeDecl ν) :=
  ⟨fun ρ d => { d with indication := relocate ρ d.indication, span := relocate ρ d.span }⟩

instance : Relocatable (Component ν) where
  relocate ρ d :=
    { d with
      generics := relocate ρ d.generics
      ports := relocate ρ d.ports
      span := relocate ρ d.span }

mutual

def Declaration.move : Declaration ν → Declaration ν
  | .subprogram d => .subprogram (relocate ρ d)
  | .type d => .type (relocate ρ d)
  | .subtype d => .subtype (relocate ρ d)
  | .constant d => .constant (relocate ρ d)
  | .signal d => .signal (relocate ρ d)
  | .variable d => .variable (relocate ρ d)
  | .package ⟨name, only, ds, span⟩ =>
    .package ⟨name, only, Declaration.moveAll ds, relocate ρ span⟩
  | .component d => .component (relocate ρ d)

def Declaration.moveAll : List (Declaration ν) → List (Declaration ν)
  | [] => []
  | d :: ds => d.move :: Declaration.moveAll ds

end

instance : Relocatable (Declaration ν) := ⟨Declaration.move⟩

instance : Relocatable (Package ν) where
  relocate ρ p :=
    { p with declarations := relocate ρ p.declarations, span := relocate ρ p.span }

instance : Relocatable (Product ν) where
  relocate
    | ρ, .package p => .package (relocate ρ p)
    | ρ, .component c => .component (relocate ρ c)
    | ρ, .packages ps => .packages (relocate ρ ps)

instance : Relocatable Defect where
  relocate
    | ρ, .missing parent expected region => .missing parent expected (region.shift ρ.offset)
    | ρ, .unexpected expected found region => .unexpected expected found (region.shift ρ.offset)
    | ρ, .nameless construct region => .nameless construct (region.shift ρ.offset)
    | ρ, .invalidMode text region => .invalidMode text (region.shift ρ.offset)

instance : Relocatable Skipped := ⟨fun ρ s => { s with span := s.span.shift ρ.offset }⟩

instance : Relocatable Event where
  relocate
    | _, .name s => .name s
    | ρ, .skip s => .skip (relocate ρ s)

instance [Relocatable α] : Relocatable (Except Defect α) where
  relocate
    | ρ, .ok a => .ok (relocate ρ a)
    | ρ, .error d => .error (relocate ρ d)

instance {τ : Type} [Relocatable τ] [Relocatable α] : Relocatable (Traced τ α) :=
  ⟨fun ρ x => ⟨relocate ρ x.result, relocate ρ x.trace⟩⟩

end Data

section Lists

variable {α β : Type} [Relocatable α] [Relocatable β] {ρ : Relocation}

theorem relocate_list (as : List α) : relocate ρ as = as.map (relocate ρ) := rfl

theorem relocate_strings (ss : List String) : relocate ρ ss = ss := List.map_id ss

theorem relocate_flatten (ass : List (List α)) :
    relocate ρ ass.flatten = (relocate ρ ass).flatten :=
  List.map_flatten

theorem Declaration.moveAll_eq {ν : Type} (ds : List (Declaration ν)) :
    Declaration.moveAll ρ ds = relocate ρ ds := by
  induction ds with
  | nil => rfl
  | cons d ds ih =>
    rw [Declaration.moveAll, ih]
    rfl

theorem Declaration.relocate_package {ν : Type} (p : Package ν) :
    relocate ρ (Declaration.package p) = .package (relocate ρ p) := by
  change Declaration.move ρ (.package p) = _
  rw [Declaration.move, Declaration.moveAll_eq]
  rfl

end Lists

namespace Traced

variable {τ α β γ : Type} [Relocatable τ] [Relocatable α] [Relocatable β] {ρ : Relocation}

/-- Moving goes through a sequence of steps if it goes through each of them. -/
theorem bind_relocate {x y : Traced τ α} {f g : α → Traced τ β} (hx : y = relocate ρ x)
    (hf : ∀ a, x.result = .ok a → g (relocate ρ a) = relocate ρ (f a)) :
    y >>= g = relocate ρ (x >>= f) := by
  subst hx
  cases h : x.result with
  | error d =>
    have hmoved : (relocate ρ x).result = .error (relocate ρ d) := congrArg (relocate ρ) h
    rw [bind_of_error f h, bind_of_error g hmoved]
    rfl
  | ok a =>
    have hmoved : (relocate ρ x).result = .ok (relocate ρ a) := congrArg (relocate ρ) h
    rw [bind_of_ok f h, bind_of_ok g hmoved, hf a h]
    exact congrArg (Traced.mk _) List.map_append.symm

theorem map_relocate {x y : Traced τ α} {f g : α → β} (hx : y = relocate ρ x)
    (hf : ∀ a, g (relocate ρ a) = relocate ρ (f a)) : g <$> y = relocate ρ (f <$> x) := by
  rw [map_eq_pure_bind, map_eq_pure_bind]
  exact bind_relocate hx fun a _ => congrArg pure (hf a)

theorem mapM_relocate {δ : Type} {cs : List γ} {move : γ → δ} {f : γ → Traced τ α}
    {g : δ → Traced τ α} (h : ∀ c ∈ cs, g (move c) = relocate ρ (f c)) :
    (cs.map move).mapM g = relocate ρ (cs.mapM f) := by
  induction cs with
  | nil => rfl
  | cons c cs ih =>
    obtain ⟨hc, hcs⟩ := List.forall_mem_cons.mp h
    rw [List.map_cons, List.mapM_cons, List.mapM_cons]
    exact bind_relocate hc fun a _ => bind_relocate (ih hcs) fun as _ => rfl

end Traced

open Traced

section Readers

variable {ρ : Relocation} {file : FileId} {n : Node}

theorem Node.missingIn_shift (h : n.Fits ρ.offset) (r : Rule) :
    Defect.missingIn (n.shift ρ.offset) r = relocate ρ (Defect.missingIn n r) := by
  simp [Defect.missingIn, relocate, Span.region_shift h.span]

theorem Node.unexpectedNode_shift (h : n.Fits ρ.offset) (r : Rule) :
    Defect.unexpectedNode (n.shift ρ.offset) r = relocate ρ (Defect.unexpectedNode n r) := by
  simp [Defect.unexpectedNode, relocate, Span.region_shift h.span]

theorem require_relocate {α : Type} [Relocatable α] {x : Option α} {d e : Defect}
    (h : e = relocate ρ d) :
    (require (relocate ρ x) e : Naming α) = relocate ρ (require x d) := by
  subst h
  cases x <;> rfl

namespace Node

variable (h : n.Fits ρ.offset)
include h

theorem required_relocate (r : Rule) :
    ((n.shift ρ.offset).required r : Naming Node) = relocate ρ (n.required r) := by
  rw [required, required, child?_shift]
  exact require_relocate (missingIn_shift h r)

theorem nameBy_relocate (c : Node) :
    ((n.shift ρ.offset).nameBy (c.shift ρ.offset) : Naming String) =
      relocate ρ (n.nameBy c) := by
  rw [nameBy, nameBy, sourceText_shift, missingIn_shift h]
  split <;> rfl

theorem name_relocate : ((n.shift ρ.offset).name : Naming String) = relocate ρ n.name :=
  bind_relocate (required_relocate h .identifier) fun c _ => nameBy_relocate h c

theorem names_relocate :
    ((n.shift ρ.offset).names : Naming (List String)) = relocate ρ n.names := by
  rw [names, names, identifiers_shift]
  refine bind_relocate (mapM_relocate fun c _ => nameBy_relocate h c) fun ss _ => ?_
  rw [relocate_strings, kind_shift, span_shift, Span.region_shift h.span]
  split
  · rfl
  · exact congrArg pure (relocate_strings ss).symm

omit h in
theorem fragment_relocate (file : FileId) : fragment ρ.file (relocate ρ n) = relocate ρ (n.fragment file) := by
  simp [fragment, relocate]

omit h in
theorem fileSpan_shift (file : FileId) : fileSpan ρ.file (n.shift ρ.offset) = relocate ρ (n.fileSpan file) := by
  simp [fileSpan, relocate]

omit h in
theorem map_fragment_shift (file : FileId) (kind : Kind) :
    ((n.shift ρ.offset).child? kind).map (fragment ρ.file) =
      relocate ρ ((n.child? kind).map (fragment file)) := by
  rw [child?_shift]
  cases n.child? kind with
  | none => rfl
  | some c => exact congrArg some (fragment_relocate file)

end Node

theorem Object.forNames_relocate (kind : ObjectKind) (direction : Option Direction) (type : Expr)
    (value : Option Expr) (span : FileSpan) (names : List String) :
    forNames kind direction (relocate ρ type) (relocate ρ value) (relocate ρ span) names =
      relocate ρ (forNames kind direction type value span names) := by
  rw [forNames, forNames, relocate_list, List.map_map]
  rfl

theorem Object.ofNode_relocate (kind : ObjectKind) (h : n.Fits ρ.offset) :
    (Object.ofNode ρ.file kind (n.shift ρ.offset) : Naming (List (Object String))) =
      relocate ρ (Object.ofNode file kind n) := by
  rw [Object.ofNode, Object.ofNode, Node.map_fragment_shift file,
    Node.fileSpan_shift file]
  refine bind_relocate (Node.names_relocate h) fun names _ => ?_
  refine bind_relocate (Node.required_relocate h _) fun c _ => ?_
  rw [Node.fragment_relocate file, relocate_strings]
  exact congrArg pure (forNames_relocate kind none _ _ _ names)

theorem Node.direction_relocate (kind : ObjectKind) (h : n.Fits ρ.offset) :
    ((n.shift ρ.offset).direction kind : Naming (Option Direction)) =
      relocate ρ (n.direction kind) := by
  unfold direction
  rw [child?_shift]
  cases hmode : n.child? (.rule .mode) with
  | none => cases kind <;> rfl
  | some mode =>
    simp only [Option.map_some, sourceText_shift, span_shift,
      Span.region_shift (h.child? hmode).span]
    cases Direction.ofKeyword? mode.sourceText <;> rfl

theorem Node.interfaceObjects_relocate (kind : ObjectKind) (h : n.Fits ρ.offset) :
    ((n.shift ρ.offset).interfaceObjects ρ.file kind : Naming (List (Object String))) =
      relocate ρ (n.interfaceObjects file kind) := by
  rw [interfaceObjects, interfaceObjects, map_fragment_shift file,
    fileSpan_shift file]
  refine bind_relocate (names_relocate h) fun names _ => ?_
  refine bind_relocate (direction_relocate kind h) fun direction _ => ?_
  refine bind_relocate (required_relocate h _) fun c _ => ?_
  rw [fragment_relocate file, relocate_strings]
  have hdirection : relocate ρ direction = direction := by cases direction <;> rfl
  rw [hdirection]
  exact congrArg pure (Object.forNames_relocate kind direction _ _ _ names)

namespace InterfaceList

theorem itemObjects_relocate (kind : ObjectKind) {item : InterfaceItem}
    (h : item.node.Fits ρ.offset) :
    (itemObjects ρ.file kind (Node.moveItem ρ.offset item) : Naming (List (Object String))) =
      relocate ρ (itemObjects file kind item) := by
  cases item with
  | object c => exact Node.interfaceObjects_relocate kind h
  | other c => rfl

theorem ofNode_relocate (kind : ObjectKind) (h : n.Fits ρ.offset) :
    (ofNode ρ.file kind (n.shift ρ.offset) : Naming (InterfaceList String)) =
      relocate ρ (ofNode file kind n) := by
  have hitem : ∀ item ∈ n.interfaceItems, item.node.Fits ρ.offset := fun item hmem =>
    h.within (Node.holds_of_mem_interfaceItems hmem).within
  rw [ofNode, ofNode, Node.interfaceItems_shift, Node.filterMap_other?_moveItem]
  refine bind_relocate (mapM_relocate fun item hmem => itemObjects_relocate kind (hitem item hmem))
    fun oss _ => ?_
  rw [← relocate_flatten]
  rfl

theorem ofChild_relocate (kind : ObjectKind) (clause : Rule) (h : n.Fits ρ.offset) :
    (ofChild ρ.file kind clause (n.shift ρ.offset) : Naming (InterfaceList String)) =
      relocate ρ (ofChild file kind clause n) := by
  rw [ofChild, ofChild, Node.child?_shift]
  cases hc : n.child? clause with
  | none => rfl
  | some c => exact ofNode_relocate kind (h.child? hc)

end InterfaceList

namespace Node

theorem within_of_mem_others {clause c : Node}
    (h : c ∈ clause.interfaceItems.filterMap InterfaceItem.other?) : c.Within clause := by
  obtain ⟨item, hitem, hc⟩ := List.mem_filterMap.mp h
  cases item with
  | object d => cases hc
  | other d =>
    cases hc
    exact (holds_of_mem_interfaceItems hitem).within

variable (h : n.Fits ρ.offset)
include h

theorem subprogramParts_relocate :
    ((n.shift ρ.offset).subprogramParts : Naming (SubprogramKind × Node)) =
      relocate ρ n.subprogramParts := by
  rw [subprogramParts, subprogramParts, child?_shift, child?_shift,
    missingIn_shift h]
  cases n.child? (.rule .functionSpecification) <;>
    cases n.child? (.rule .procedureSpecification) <;> rfl

theorem designator_relocate :
    ((n.shift ρ.offset).designator : Naming String) = relocate ρ n.designator := by
  rw [designator, designator, child?_shift]
  cases n.child? (.rule .designator) with
  | none => exact name_relocate h
  | some d => exact nameBy_relocate h d

theorem parameters_relocate :
    ((n.shift ρ.offset).parameters ρ.file : Naming (List (Object String))) =
      relocate ρ (n.parameters file) := by
  rw [parameters, parameters, child?_shift]
  cases hlist : n.child? (.rule .formalParameterList) with
  | none => rfl
  | some list =>
    refine bind_relocate (InterfaceList.ofNode_relocate .parameter (h.child? hlist))
      fun params hparams => ?_
    have hothers := InterfaceList.others_of_ofNode hparams
    obtain ⟨objects, others⟩ := params
    cases others with
    | nil => rfl
    | cons c others =>
      have hc : c ∈ list.interfaceItems.filterMap InterfaceItem.other? := by
        rw [← hothers]
        exact List.mem_cons_self
      have hfits : c.Fits ρ.offset := (h.child? hlist).within (within_of_mem_others hc)
      exact congrArg fail (unexpectedNode_shift hfits _)

theorem returnType_relocate (kind : SubprogramKind) :
    ((n.shift ρ.offset).returnType ρ.file kind : Naming (Option Expr)) =
      relocate ρ (n.returnType file kind) := by
  cases kind with
  | procedure => rfl
  | function =>
    rw [returnType, returnType, child?_shift, child?_shift, ← Option.map_or]
    refine bind_relocate (require_relocate (missingIn_shift h _)) fun mark _ => ?_
    rw [fragment_relocate file]
    rfl

end Node

theorem Subprogram.ofNode_relocate (h : n.Fits ρ.offset) :
    (Subprogram.ofNode ρ.file (n.shift ρ.offset) : Naming (Subprogram String)) =
      relocate ρ (Subprogram.ofNode file n) := by
  rw [Subprogram.ofNode, Subprogram.ofNode, Node.fileSpan_shift file]
  refine bind_relocate (Node.required_relocate h _) fun outer houter => ?_
  have houter' : outer.Fits ρ.offset := h.child? (Node.result_required_eq_ok.mp houter)
  refine bind_relocate (Node.subprogramParts_relocate houter') fun parts hparts => ?_
  obtain ⟨kind, spec⟩ := parts
  have hspec : spec.Fits ρ.offset :=
    houter'.within (Node.result_subprogramParts_eq_ok.mp hparts).within
  refine bind_relocate (Node.designator_relocate hspec) fun name _ => ?_
  refine bind_relocate (Node.parameters_relocate hspec) fun params _ => ?_
  exact bind_relocate (Node.returnType_relocate hspec kind) fun returnType _ => rfl

theorem Node.literalName_relocate :
    ((n.shift ρ.offset).literalName : Naming String) = relocate ρ n.literalName := by
  rw [literalName, literalName, sourceText_shift]
  rfl

theorem Node.typeDefinition_relocate :
    ((n.shift ρ.offset).typeDefinition ρ.file : Naming (TypeDefinition String)) =
      relocate ρ (n.typeDefinition file) := by
  rw [typeDefinition, typeDefinition, kind_shift, findDescendant?_shift, child?_shift]
  split
  · rfl
  · cases n.findDescendant? (.rule .enumerationTypeDefinition) with
    | some enumeration =>
      simp only [Option.map_some, literals_shift]
      exact map_relocate (mapM_relocate fun c _ => literalName_relocate) fun literals =>
        congrArg TypeDefinition.enumeration (relocate_strings literals)
    | none =>
      cases n.child? (.rule .typeDefinition) with
      | none => rfl
      | some definition =>
        exact congrArg (fun e => pure (TypeDefinition.verbatim e)) (fragment_relocate file)

theorem TypeDecl.ofNode_relocate (h : n.Fits ρ.offset) :
    (TypeDecl.ofNode ρ.file (n.shift ρ.offset) : Naming (TypeDecl String)) =
      relocate ρ (TypeDecl.ofNode file n) := by
  have hparts : n.typeParts.Fits ρ.offset := h.within n.within_typeParts
  rw [TypeDecl.ofNode, TypeDecl.ofNode, Node.typeParts_shift, Node.fileSpan_shift file]
  refine bind_relocate (Node.name_relocate hparts) fun name _ => ?_
  exact bind_relocate Node.typeDefinition_relocate fun definition _ => rfl

theorem SubtypeDecl.ofNode_relocate (h : n.Fits ρ.offset) :
    (SubtypeDecl.ofNode ρ.file (n.shift ρ.offset) : Naming (SubtypeDecl String)) =
      relocate ρ (SubtypeDecl.ofNode file n) := by
  rw [SubtypeDecl.ofNode, SubtypeDecl.ofNode, Node.fileSpan_shift file]
  refine bind_relocate (Node.name_relocate h) fun name _ => ?_
  refine bind_relocate (Node.required_relocate h _) fun c _ => ?_
  rw [Node.fragment_relocate file]
  rfl

end Readers

section Scopes

variable {ρ : Relocation} {ctx : Context} {n : Node}

/-- The context of the tree at its new place. -/
def Context.move (ρ : Relocation) (ctx : Context) : Context := { ctx with file := ρ.file }

@[simp] theorem Context.hierarchyOnly_move : (ctx.move ρ).hierarchyOnly = ctx.hierarchyOnly := rfl

theorem read_relocate {α : Type} [Relocatable α] {x y : Naming α} (h : y = relocate ρ x) :
    (read y : Lowering α) = relocate ρ (read x) := by
  subst h
  have htrace : (relocate ρ x).trace = x.trace := relocate_strings x.trace
  change Traced.mk (relocate ρ x).result ((relocate ρ x).trace.map Event.name) =
    Traced.mk (relocate ρ x.result) ((x.trace.map Event.name).map (relocate ρ))
  rw [htrace, List.map_map]
  rfl

namespace Node

theorem ensure_relocate (h : n.Fits ρ.offset) (r : Rule) :
    ((n.shift ρ.offset).ensure r : Naming Unit) = relocate ρ (n.ensure r) := by
  rw [ensure, ensure, kind_shift, unexpectedNode_shift h]
  split <;> rfl

theorem skipAs_relocate (label : String) :
    ((n.shift ρ.offset).skipAs label : Lowering Unit) = relocate ρ (n.skipAs label) := by
  rw [skipAs, skipAs, Skipped.ofNode, Skipped.ofNode, kind_shift, span_shift]
  rfl

theorem forM_skipAs_relocate (label : String) (ns : List Node) :
    ((ns.map (shift ρ.offset)).forM (skipAs label) : Lowering Unit) =
      relocate ρ (ns.forM (skipAs label)) := by
  induction ns with
  | nil => rfl
  | cons c ns ih => exact bind_relocate (skipAs_relocate label) fun _ _ => ih

theorem skipHeader_relocate :
    ((n.shift ρ.offset).skipHeader : Lowering Unit) = relocate ρ n.skipHeader := by
  have hchild (c : Option Node) (label : String) :
      ((c.map (shift ρ.offset)).forM (skipAs label) : Lowering Unit) =
        relocate ρ (c.forM (skipAs label)) := by
    cases c with
    | none => rfl
    | some c => exact skipAs_relocate label
  rw [skipHeader, skipHeader, child?_shift]
  cases n.child? (.rule .packageHeader) with
  | none => rfl
  | some header =>
    simp only [Option.map_some, child?_shift]
    exact bind_relocate (hchild _ _) fun _ _ => hchild _ _

end Node

theorem Component.ofNode_relocate (h : n.Fits ρ.offset) :
    (Component.ofNode (ctx.move ρ) (n.shift ρ.offset) : Lowering (Component String)) =
      relocate ρ (Component.ofNode ctx n) := by
  have hspan : (n.shift ρ.offset).fileSpan (ctx.move ρ).file = relocate ρ (n.fileSpan ctx.file) :=
    Node.fileSpan_shift ctx.file
  rw [Component.ofNode, Component.ofNode, hspan, Context.hierarchyOnly_move]
  refine bind_relocate (read_relocate (Node.ensure_relocate h _)) fun _ _ => ?_
  refine bind_relocate (read_relocate (Node.name_relocate h)) fun name _ => ?_
  split
  · rfl
  · refine bind_relocate (read_relocate (InterfaceList.ofChild_relocate _ _ h))
      fun generics _ => ?_
    refine bind_relocate (read_relocate (InterfaceList.ofChild_relocate _ _ h)) fun ports _ => ?_
    refine bind_relocate ?_ fun _ _ => rfl
    exact List.map_append ▸ Node.forM_skipAs_relocate _ (generics.others ++ ports.others)

theorem DeclarativeItem.lower_relocate {item : DeclarativeItem} (h : item.node.Fits ρ.offset)
    (hpackage : (Package.ofNode (ctx.move ρ) (item.node.shift ρ.offset) :
      Lowering (Package String)) = relocate ρ (Package.ofNode ctx item.node)) :
    (DeclarativeItem.lower (ctx.move ρ) ⟨item.role, item.node.shift ρ.offset⟩ :
      Lowering (List (Declaration String))) = relocate ρ (item.lower ctx) := by
  have hobjects (kind : ObjectKind) (decl : Object String → Declaration String)
      (hdecl : ∀ o, decl (relocate ρ o) = relocate ρ (decl o)) :
      (do return (← read (Object.ofNode ρ.file kind (item.node.shift ρ.offset))).map decl :
        Lowering (List (Declaration String))) =
      relocate ρ (do return (← read (Object.ofNode ctx.file kind item.node)).map decl) := by
    refine bind_relocate (read_relocate (Object.ofNode_relocate kind h)) fun os _ => ?_
    have hmap : (relocate ρ os).map decl = relocate ρ (os.map decl) := by
      simp [relocate_list, hdecl]
    exact congrArg pure hmap
  rw [DeclarativeItem.lower, DeclarativeItem.lower]
  cases item.role with
  | subprogram =>
    exact bind_relocate (read_relocate (Subprogram.ofNode_relocate h)) fun d _ => rfl
  | package =>
    refine bind_relocate hpackage fun p _ => ?_
    exact congrArg (fun d => pure [d]) (Declaration.relocate_package p).symm
  | type => exact bind_relocate (read_relocate (TypeDecl.ofNode_relocate h)) fun d _ => rfl
  | subtype => exact bind_relocate (read_relocate (SubtypeDecl.ofNode_relocate h)) fun d _ => rfl
  | constant => exact hobjects .constant .constant fun _ => rfl
  | signal => exact hobjects .signal .signal fun _ => rfl
  | «variable» => exact hobjects .variable .variable fun _ => rfl
  | component => exact bind_relocate (Component.ofNode_relocate h) fun d _ => rfl
  | unsupported u => exact bind_relocate (Node.skipAs_relocate _) fun _ _ => rfl

theorem Package.ofNode_relocate (h : n.Fits ρ.offset) :
    (Package.ofNode (ctx.move ρ) (n.shift ρ.offset) : Lowering (Package String)) =
      relocate ρ (Package.ofNode ctx n) := by
  induction n using Node.packageInduction with
  | h n ih =>
    rw [Package.ofNode, Package.ofNode]
    refine bind_relocate (read_relocate (Node.ensure_relocate h _)) fun _ _ => ?_
    refine bind_relocate (read_relocate (Node.name_relocate h)) fun name _ => ?_
    have hitems : (n.packageItems.map (Node.shift ρ.offset)).mapM (fun c =>
        ((DeclarativeItem.classify c).lower (ctx.move ρ) : Lowering (List (Declaration String)))) =
          relocate ρ (n.packageItems.mapM fun c => (DeclarativeItem.classify c).lower ctx) := by
      refine mapM_relocate fun c hc => ?_
      have hfits : (DeclarativeItem.classify c).node.Fits ρ.offset :=
        (h.within (Node.within_of_packageItem hc)).within c.within_classify
      rw [Node.classify_shift]
      exact DeclarativeItem.lower_relocate hfits (ih c hc hfits)
    have hspan : (n.shift ρ.offset).fileSpan (ctx.move ρ).file = relocate ρ (n.fileSpan ctx.file) :=
      Node.fileSpan_shift ctx.file
    rw [hspan, Node.packageItems_shift, declarationsOf_eq_mapM, declarationsOf_eq_mapM,
      Context.hierarchyOnly_move]
    split
    · rfl
    · refine bind_relocate Node.skipHeader_relocate fun _ _ => ?_
      exact bind_relocate (map_relocate hitems fun dss => (relocate_flatten dss).symm)
        fun ds _ => rfl

namespace DesignFile

theorem lowerPart_relocate (h : n.Fits ρ.offset) :
    (lowerPart (ctx.move ρ) (n.shift ρ.offset) : Lowering (List (Package String))) =
      relocate ρ (lowerPart ctx n) := by
  have hunit : n.libraryUnit.Fits ρ.offset := h.within n.unwraps_libraryUnit.within
  unfold lowerPart
  rw [Node.kind_shift, Node.libraryUnit_shift, Node.kind_shift, Node.phrases_shift]
  split
  · exact bind_relocate (Node.forM_skipAs_relocate _ _) fun _ _ => rfl
  · exact bind_relocate (Node.skipAs_relocate _) fun _ _ => rfl
  · exact bind_relocate (Node.skipAs_relocate _) fun _ _ => rfl
  · exact bind_relocate (Node.skipAs_relocate _) fun _ _ => rfl
  · split
    · exact bind_relocate (Package.ofNode_relocate hunit) fun p _ => rfl
    · exact bind_relocate (Node.skipAs_relocate _) fun _ _ => rfl

theorem lower_relocate (h : n.Fits ρ.offset) :
    (lower (ctx.move ρ) (n.shift ρ.offset) : Lowering (List (Package String))) =
      relocate ρ (lower ctx n) := by
  rw [lower, lower, Node.unitParts_shift]
  refine bind_relocate (read_relocate (Node.ensure_relocate h _)) fun _ _ => ?_
  refine bind_relocate (mapM_relocate fun c hc => ?_) fun pss _ => ?_
  · exact lowerPart_relocate (h.within (Node.within_of_unitPart hc))
  · exact congrArg pure (relocate_flatten pss).symm

end DesignFile

theorem Target.lower_relocate (target : Target) (h : n.Fits ρ.offset) :
    (target.lower (ctx.move ρ) (n.shift ρ.offset) : Lowering (Product String)) =
      relocate ρ (target.lower ctx n) := by
  cases target with
  | package => exact map_relocate (Package.ofNode_relocate h) fun p => rfl
  | component => exact map_relocate (Component.ofNode_relocate h) fun c => rfl
  | designFile => exact map_relocate (DesignFile.lower_relocate h) fun ps => rfl

end Scopes

section Names

variable {ν μ : Type} (f : ν → μ) {ρ : Relocation}

theorem Object.map_relocate_list (os : List (Object ν)) :
    (relocate ρ os).map (Object.map f) = relocate ρ (os.map (Object.map f)) := by
  rw [relocate_list, relocate_list, List.map_map, List.map_map]
  rfl

theorem Subprogram.map_relocate (d : Subprogram ν) :
    (relocate ρ d).map f = relocate ρ (d.map f) :=
  congrArg (Subprogram.mk _ _ · _ _) (Object.map_relocate_list f d.params)

theorem TypeDecl.map_relocate (d : TypeDecl ν) : (relocate ρ d).map f = relocate ρ (d.map f) := by
  obtain ⟨name, definition, span⟩ := d
  cases definition <;> rfl

theorem Component.map_relocate (d : Component ν) : (relocate ρ d).map f = relocate ρ (d.map f) :=
  congrArg₂ (Component.mk _ · · _) (Object.map_relocate_list f d.generics)
    (Object.map_relocate_list f d.ports)

mutual

theorem Declaration.map_move : ∀ d : Declaration ν,
    (d.move ρ).map f = (d.map f).move ρ
  | .subprogram d => by simp only [Declaration.move, Declaration.map, Subprogram.map_relocate]
  | .type d => by simp only [Declaration.move, Declaration.map, TypeDecl.map_relocate]
  | .subtype _ => rfl
  | .constant _ => rfl
  | .signal _ => rfl
  | .variable _ => rfl
  | .package ⟨name, only, ds, span⟩ => by
    simp only [Declaration.move, Declaration.map, Declaration.mapList_moveAll ds]
  | .component d => by simp only [Declaration.move, Declaration.map, Component.map_relocate]

theorem Declaration.mapList_moveAll : ∀ ds : List (Declaration ν),
    Declaration.mapList f (Declaration.moveAll ρ ds) =
      Declaration.moveAll ρ (Declaration.mapList f ds)
  | [] => rfl
  | d :: ds => by
    simp only [Declaration.moveAll, Declaration.mapList, Declaration.map_move d,
      Declaration.mapList_moveAll ds]

end

theorem Package.map_relocate (p : Package ν) :
    Package.map f (relocate ρ p) = relocate ρ (Package.map f p) := by
  have hdeclarations : (relocate ρ p.declarations).map (Declaration.map f) =
      relocate ρ (p.declarations.map (Declaration.map f)) := by
    rw [← Declaration.mapList_eq_map, ← Declaration.mapList_eq_map, ← Declaration.moveAll_eq,
      ← Declaration.moveAll_eq, Declaration.mapList_moveAll]
  exact congrArg (Scope.mk _ _ · _) hdeclarations

theorem Product.map_relocate (p : Product ν) : (relocate ρ p).map f = relocate ρ (p.map f) := by
  cases p with
  | package p => exact congrArg package (Package.map_relocate f p)
  | component c => exact congrArg component (Component.map_relocate f c)
  | packages ps =>
    have hps : (relocate ρ ps).map (Package.map f) = relocate ρ (ps.map (Package.map f)) := by
      simp [relocate_list, Package.map_relocate]
    exact congrArg packages hps

theorem Session.Answer.map_relocate (a : Answer ν) :
    (relocate ρ a : Answer ν).map f = relocate ρ (a.map f) := by
  match a with
  | .error _ => rfl
  | .ok none => rfl
  | .ok (some p) => exact congrArg (fun p => Except.ok (some p)) (Product.map_relocate f p)

/-- A moved answer says what the answer says, moved. -/
theorem Session.Answer.Says.relocate {t : NameTable} {a : Answer Symbol} {r : Answer String}
    (h : a.Says t r) : Says t (relocate ρ a) (relocate ρ r) := by
  rw [Says, map_relocate, map_relocate, h]

end Names

section Outlines

variable {ρ : Relocation}

theorem Object.outline_relocate (o : Object String) : (relocate ρ o).outline = o.outline := by
  obtain ⟨name, kind, direction, type, value, span⟩ := o
  cases type <;> cases value <;> rfl

theorem Object.row_relocate (depth : Nat) (o : Object String) :
    (relocate ρ o).row depth = o.row depth := by
  rw [row, row, outline_relocate]
  rfl

theorem Subprogram.outline_relocate (d : Subprogram String) :
    (relocate ρ d).outline = d.outline := by
  obtain ⟨name, kind, params, returnType, span⟩ := d
  have hparams : (relocate ρ params).map Object.outline = params.map Object.outline := by
    simp [relocate_list, Function.comp_def, Object.outline_relocate]
  have hempty : (relocate ρ params).isEmpty = params.isEmpty := List.isEmpty_map
  change outline ⟨name, kind, relocate ρ params, relocate ρ returnType, relocate ρ span⟩ = _
  rw [outline, outline, hparams, hempty]
  cases returnType <;> rfl

theorem TypeDecl.outline_relocate (d : TypeDecl String) : (relocate ρ d).outline = d.outline := by
  obtain ⟨name, definition, span⟩ := d
  cases definition <;> rfl

theorem Component.rows_relocate (depth : Nat) (d : Component String) :
    (relocate ρ d).rows depth = d.rows depth := by
  have hrows (os : List (Object String)) :
      (relocate ρ os).map (Object.row (depth + 1)) = os.map (Object.row (depth + 1)) := by
    simp [relocate_list, Function.comp_def, Object.row_relocate]
  obtain ⟨name, generics, ports, span⟩ := d
  change rows depth ⟨name, relocate ρ generics, relocate ρ ports, relocate ρ span⟩ = _
  simp only [rows, List.map_append, hrows]

mutual

theorem Declaration.rows_move (depth : Nat) : ∀ d : Declaration String,
    (d.move ρ).rows depth = d.rows depth
  | .subprogram d => by simp only [Declaration.move, Declaration.rows, Subprogram.outline_relocate]
  | .type d => by simp only [Declaration.move, Declaration.rows, TypeDecl.outline_relocate]
  | .subtype _ => rfl
  | .constant d => by simp only [Declaration.move, Declaration.rows, Object.row_relocate]
  | .signal d => by simp only [Declaration.move, Declaration.rows, Object.row_relocate]
  | .variable d => by simp only [Declaration.move, Declaration.rows, Object.row_relocate]
  | .package ⟨name, only, ds, span⟩ => by
    simp only [Declaration.move, Declaration.rows, Declaration.rowsOf_moveAll (depth + 1) ds]
  | .component d => by simp only [Declaration.move, Declaration.rows, Component.rows_relocate]

theorem Declaration.rowsOf_moveAll (depth : Nat) : ∀ ds : List (Declaration String),
    Declaration.rowsOf depth (Declaration.moveAll ρ ds) = Declaration.rowsOf depth ds
  | [] => rfl
  | d :: ds => by
    simp only [Declaration.moveAll, Declaration.rowsOf, Declaration.rows_move depth d,
      Declaration.rowsOf_moveAll depth ds]

end

/-- Positions are not shown in outlines. -/
theorem Package.outline_relocate (p : Package String) :
    Package.outline (relocate ρ p) = Package.outline p := by
  have hrows : Package.rows 0 (relocate ρ p) = Package.rows 0 p := by
    rw [← Declaration.rows_package, ← Declaration.rows_package, ← Declaration.relocate_package]
    exact Declaration.rows_move 0 _
  rw [Package.outline, Package.outline, hrows]

theorem Session.Answer.outlines_relocate (a : Answer String) :
    (relocate ρ a : Answer String).outlines = a.outlines := by
  match a with
  | .error _ => rfl
  | .ok none => rfl
  | .ok (some (.component _)) => rfl
  | .ok (some (.package p)) => exact congrArg ([·]) (Package.outline_relocate p)
  | .ok (some (.packages ps)) =>
    change (relocate ρ ps).map Package.outline = ps.map Package.outline
    simp [relocate_list, Function.comp_def, Package.outline_relocate]

end Outlines

namespace Session

section Step

variable {ρ : Relocation} {n : Node} (target : Target) (ctx : Context)

theorem meaning_relocate (h : n.Fits ρ.offset) :
    (Step.lower target (ctx.move ρ) (n.shift ρ.offset)).meaning =
      relocate ρ (Step.lower target ctx n).meaning := by
  rw [Step.meaning, Step.meaning, Target.lower_relocate target h]
  change (relocate ρ (target.lower ctx n : Lowering (Product String)).result).map some = _
  cases (target.lower ctx n : Lowering (Product String)).result <;> rfl

theorem trace_relocate (h : n.Fits ρ.offset) :
    (Step.lower target (ctx.move ρ) (n.shift ρ.offset)).trace =
      relocate ρ (Step.lower target ctx n).trace :=
  congrArg Traced.trace (Target.lower_relocate target h)

end Step

theorem filterMap_name?_relocate {ρ : Relocation} (es : List Event) :
    (relocate ρ es).filterMap Event.name? = es.filterMap Event.name? := by
  rw [relocate_list, List.filterMap_map]
  refine List.filterMap_congr fun e _ => ?_
  cases e <;> rfl

theorem filterMap_skip?_relocate {ρ : Relocation} (es : List Event) :
    (relocate ρ es).filterMap Event.skip? = relocate ρ (es.filterMap Event.skip?) := by
  rw [relocate_list, relocate_list, List.filterMap_map, List.map_filterMap]
  refine List.filterMap_congr fun e _ => ?_
  cases e <;> rfl

/-- Lowered in another place, a tree gives the answer of this place, moved, with the same names and
the same outlines; the entries of the log are those of this place, moved, and the table has the same
names. -/
theorem step_relocated {n : Node} {ρ : Relocation} (h : n.Fits ρ.offset) (s : Session)
    (target : Target) (file : FileId) (hierarchyOnly : Bool) :
    let here := s.step (.lower target ⟨file, hierarchyOnly⟩ n)
    let there := s.step (.lower target ⟨ρ.file, hierarchyOnly⟩ (n.shift ρ.offset))
    there.1 = relocate ρ here.1 ∧ there.2.names = here.2.names ∧
    (∃ entries : Log, here.2.log = s.log ++ entries ∧
      there.2.log = s.log ++ relocate ρ entries) ∧
    (there.1.map there.2.names.nameOf).outlines = (here.1.map here.2.names.nameOf).outlines := by
  intro here there
  let call : Step := .lower target ⟨file, hierarchyOnly⟩ n
  let moved : Step := .lower target ⟨ρ.file, hierarchyOnly⟩ (n.shift ρ.offset)
  have htrace : moved.trace = relocate ρ call.trace := trace_relocate target ⟨file, hierarchyOnly⟩ h
  have hmeaning : moved.meaning = relocate ρ call.meaning :=
    meaning_relocate target ⟨file, hierarchyOnly⟩ h
  have hnames : there.2.names = here.2.names := by
    rw [s.names_step moved, s.names_step call, htrace, filterMap_name?_relocate]
  have hlog : there.2.log = s.log ++ relocate ρ (call.trace.filterMap Event.skip?) := by
    rw [s.log_step moved, htrace, filterMap_skip?_relocate]
  have hsays : here.1.Says here.2.names call.meaning := (s.step_spec call).2 _ List.prefix_rfl
  -- Both answers are over symbols of the same table, where they say the same, moved.
  have hsays' : there.1.Says here.2.names (relocate ρ call.meaning) := by
    rw [← hmeaning, ← hnames]
    exact (s.step_spec moved).2 _ List.prefix_rfl
  have hanswer : there.1 = relocate ρ here.1 := hsays'.unique hsays.relocate
  refine ⟨hanswer, hnames, ⟨_, s.log_step call, hlog⟩, ?_⟩
  rw [hanswer, hnames, Answer.map_relocate, Answer.outlines_relocate]

/-- A package whose use clause is skipped and whose span is reversed. -/
def reversedPackage : Node :=
  .branch (.rule .packageDeclaration) ⟨30, 4⟩
    [.leaf (.rule .identifier) ⟨8, 9⟩ "p",
      .branch (.rule .packageDeclarativePart) ⟨13, 30⟩ [.leaf (.rule .useClause) ⟨13, 30⟩ "use"]]

theorem reversedPackage_fits : reversedPackage.Fits 100 := by
  simp [reversedPackage, Node.branch, Node.leaf, Node.fits_mk, Span.Fits, UInt32.size]

theorem reversedPackage_relocated :
    let ρ : Relocation := ⟨⟨1⟩, 100⟩
    let here := start.step (.lower .package ⟨⟨0⟩, false⟩ reversedPackage)
    let there := start.step (.lower .package ⟨⟨1⟩, false⟩ (reversedPackage.shift 100))
    here.2.log.map Skipped.span = [⟨13, 30⟩] ∧ there.2.log.map Skipped.span = [⟨113, 130⟩] ∧
    there.1 = relocate ρ here.1 ∧ there.2.names = here.2.names := by
  intro ρ here there
  have hfits : reversedPackage.Fits ρ.offset := reversedPackage_fits
  obtain ⟨hanswer, hnames, -, -⟩ := step_relocated hfits start .package ⟨0⟩ false
  exact ⟨by decide +kernel, by decide +kernel, hanswer, hnames⟩

end Session

end VhdlLowering
