import VhdlLowering.Proofs.Acceptance
import VhdlLowering.Proofs.Subtrees

/-!
# Defects are found in the tree

A defect names the kind and the region of a node and says what is wrong with it. Whatever the tree
is lowered as and wherever lowering stops, the tree has such a node, and what is said of it is true.
-/

namespace VhdlLowering

namespace Node

/-- No child is of the kind, nor of the kind that may stand for it: a type mark may be missing if
there is a subtype, and a procedure if there is a function. -/
structure Lacks (n : Node) (r : Rule) : Prop where
  child : ∀ c ∈ n.children, c.kind ≠ .rule r
  subtype : r = .typeMark → ∀ c ∈ n.children, c.kind ≠ .rule .subtypeIndication
  function : r = .procedureSpecification → ∀ c ∈ n.children, c.kind ≠ .rule .functionSpecification

/-- The second node stands where the first one has its names: it is a designator or an identifier of
the node itself, or an identifier of its list. -/
inductive NamedBy : Node → Node → Prop
  | child {n ident : Node} (h : ident ∈ n.children)
      (hkind : ident.kind = .rule .designator ∨ ident.kind = .rule .identifier) : NamedBy n ident
  | listed {n list ident : Node} (hlist : n.child? (.rule .identifierList) = some list)
      (h : ident ∈ list.children) (hkind : ident.kind = .rule .identifier) : NamedBy n ident

/-- A tree with a node `c` that has the defect. -/
inductive Exhibits (root : Node) : Defect → Prop
  | lacks {c : Node} {r : Rule} (hc : c.Within root) (h : c.Lacks r) :
      Exhibits root (.missing c.kind r c.span.region)
  | blankName {c ident : Node} (hc : c.Within root) (hident : c.NamedBy ident)
      (htext : ident.sourceText = "") : Exhibits root (.missing c.kind .identifier c.span.region)
  | nameless {c : Node} (hc : c.Within root)
      (h : ∀ ident ∈ ((c.child? (.rule .identifierList)).getD c).children,
        ident.kind ≠ .rule .identifier) : Exhibits root (.nameless c.kind c.span.region)
  | invalidMode {c : Node} (hc : c.Within root) (hkind : c.kind = .rule .mode)
      (h : Direction.ofKeyword? c.sourceText = none) :
      Exhibits root (.invalidMode c.sourceText c.span.region)
  | unexpected {list c : Node} (hlist : list.Within root)
      (hkind : list.kind = .rule .formalParameterList) (hc : c.Within root)
      (hholds : list.Holds (.other c)) (hother : c.kind ≠ .rule .interfaceObjectDeclaration) :
      Exhibits root (.unexpected .interfaceObjectDeclaration c.kind c.span.region)

/-- Nothing but wrappers and object declarations is walked through or read. -/
theorem Holds.not_wrapper {n c : Node} (h : n.Holds (.other c)) :
    c.kind.isInterfaceWrapper = false := by
  generalize hitem : InterfaceItem.other c = item at h
  induction h with
  | object => cases hitem
  | wrapped _ _ _ _ ih => exact ih hitem
  | other _ _ hwrapper =>
    cases hitem
    exact hwrapper

/-- A defect of a part of a tree is a defect of the tree. -/
theorem Exhibits.within {c n : Node} {d : Defect} (h : c.Exhibits d) (hcn : c.Within n) :
    n.Exhibits d := by
  cases h with
  | lacks hc h => exact .lacks (hc.trans hcn) h
  | blankName hc hident htext => exact .blankName (hc.trans hcn) hident htext
  | nameless hc h => exact .nameless (hc.trans hcn) h
  | invalidMode hc hkind h => exact .invalidMode (hc.trans hcn) hkind h
  | unexpected hlist hkind hc hholds hother =>
    exact .unexpected (hlist.trans hcn) hkind (hc.trans hcn) hholds hother

end Node

namespace Traced

variable {τ α β γ : Type} {n : Node}

/-- If `x` stops, then at a defect that the tree exhibits. -/
def Blames (n : Node) (x : Traced τ α) : Prop := ∀ d, x.result = .error d → n.Exhibits d

theorem blames_pure (a : α) : Blames n (pure a : Traced τ α) := by
  intro d h
  cases h

theorem blames_fail {d : Defect} (h : n.Exhibits d) : Blames n (fail d : Traced τ α) := by
  rintro _ ⟨⟩
  exact h

theorem Blames.bind {x : Traced τ α} {f : α → Traced τ β} (hx : Blames n x)
    (hf : ∀ a, x.result = .ok a → Blames n (f a)) : Blames n (x >>= f) := by
  intro d h
  rcases result_bind_eq_error.mp h with hd | ⟨a, ha, hd⟩
  · exact hx d hd
  · exact hf a ha d hd

theorem Blames.map {x : Traced τ α} {f : α → β} (hx : Blames n x) : Blames n (f <$> x) := by
  rw [map_eq_pure_bind]
  exact hx.bind fun a _ => blames_pure (f a)

theorem blames_mapM {f : γ → Traced τ α} {cs : List γ} (h : ∀ c ∈ cs, Blames n (f c)) :
    Blames n (cs.mapM f) := by
  induction cs with
  | nil => exact blames_pure []
  | cons c cs ih =>
    obtain ⟨hc, hcs⟩ := List.forall_mem_cons.mp h
    rw [List.mapM_cons]
    exact hc.bind fun a _ => (ih hcs).bind fun as _ => blames_pure (a :: as)

/-- Lowering part of a tree blames the tree. -/
theorem Blames.within {c : Node} {x : Traced τ α} (hx : Blames c x) (hc : c.Within n) :
    Blames n x :=
  fun d h => (hx d h).within hc

theorem blames_read {x : Naming α} (hx : Blames n x) : Blames n (read x : Lowering α) := hx

theorem blames_skipAs (label : String) (c : Node) :
    Blames n (c.skipAs label : Lowering Unit) := by
  intro d h
  cases h

/-- What cannot fail blames nothing. -/
theorem blames_of_succeeds {x : Traced τ α} (hx : x.Succeeds) : Blames n x := by
  obtain ⟨a, ha⟩ := hx
  intro d h
  cases ha.symm.trans h

end Traced

open Traced

namespace Node

variable {file : FileId}

theorem child?_eq_none_iff {n : Node} {r : Rule} :
    n.child? (.rule r) = none ↔ ∀ c ∈ n.children, c.kind ≠ .rule r := by
  simp [child?]

theorem blames_required (n : Node) {r : Rule} (hmark : r ≠ .typeMark)
    (hprocedure : r ≠ .procedureSpecification) : Blames n (n.required r : Naming Node) := by
  unfold required
  cases h : n.child? (.rule r) with
  | some c => exact blames_pure c
  | none =>
    refine blames_fail (.lacks (.root n) ⟨child?_eq_none_iff.mp h, ?_, ?_⟩)
    · exact fun hr => absurd hr hmark
    · exact fun hr => absurd hr hprocedure

theorem blames_nameBy {n ident : Node} (h : n.NamedBy ident) :
    Blames n (n.nameBy ident : Naming String) := by
  unfold nameBy
  split
  · rename_i htext
    exact blames_fail (.blankName (.root n) h htext)
  · exact blames_of_succeeds ⟨_, rfl⟩

theorem blames_name (n : Node) : Blames n (n.name : Naming String) := by
  apply (n.blames_required (by decide) (by decide)).bind
  intro ident hident
  have hchild := result_required_eq_ok.mp hident
  exact blames_nameBy (.child (mem_children_of_child? hchild) (.inr (kind_of_child? hchild)))

theorem namedBy_of_mem_identifiers {n ident : Node} (h : ident ∈ n.identifiers) :
    n.NamedBy ident := by
  obtain ⟨hmem, hkind⟩ := List.mem_filter.mp h
  have hkind : ident.kind = .rule .identifier := by simpa using hkind
  cases hlist : n.child? (.rule .identifierList) with
  | some list =>
    rw [hlist] at hmem
    exact .listed hlist hmem hkind
  | none =>
    rw [hlist] at hmem
    exact .child hmem (.inr hkind)

theorem blames_names (n : Node) : Blames n (n.names : Naming (List String)) := by
  apply (blames_mapM fun ident h => blames_nameBy (namedBy_of_mem_identifiers h)).bind
  intro names hnames
  split
  · -- The names are the texts of the identifiers, so there are no identifiers either.
    rename_i hempty
    have hlength := (result_mapM_eq_ok.mp hnames).length_eq
    rw [List.isEmpty_iff.mp hempty, List.length_nil, List.length_eq_zero_iff, identifiers,
      childrenOf, List.filter_eq_nil_iff] at hlength
    exact blames_fail (.nameless (.root n) fun ident hident => by simpa using hlength ident hident)
  · exact blames_pure names

end Node

theorem Object.blames_ofNode (file : FileId) (kind : ObjectKind) (n : Node) :
    Blames n (Object.ofNode file kind n : Naming (List (Object String))) := by
  apply n.blames_names.bind
  intro names _
  apply (n.blames_required (by decide) (by decide)).bind
  intro type _
  exact blames_pure _

namespace Node

theorem blames_direction (kind : ObjectKind) (n : Node) :
    Blames n (n.direction kind : Naming (Option Direction)) := by
  unfold direction
  split
  · rename_i mode hmode
    split
    · exact blames_pure _
    · rename_i hkeyword
      exact blames_fail (.invalidMode (within_of_child? hmode) (kind_of_child? hmode) hkeyword)
  · split <;> exact blames_pure _

theorem blames_interfaceObjects (file : FileId) (kind : ObjectKind) (n : Node) :
    Blames n (n.interfaceObjects file kind : Naming (List (Object String))) := by
  apply n.blames_names.bind
  intro names _
  apply (n.blames_direction kind).bind
  intro direction _
  apply (n.blames_required (by decide) (by decide)).bind
  intro type _
  exact blames_pure _

end Node

namespace InterfaceList

theorem blames_ofNode (file : FileId) (kind : ObjectKind) (clause : Node) :
    Blames clause (ofNode file kind clause : Naming (InterfaceList String)) := by
  have hitem : ∀ item ∈ clause.interfaceItems,
      Blames clause (itemObjects file kind item : Naming (List (Object String))) := by
    intro item h
    have hholds := Node.mem_interfaceItems_iff.mp h
    cases item with
    | object c => exact (c.blames_interfaceObjects file kind).within hholds.within
    | other c => exact blames_pure []
  exact (blames_mapM hitem).bind fun objects _ => blames_pure _

theorem blames_ofChild (file : FileId) (kind : ObjectKind) (clause : Rule) (n : Node) :
    Blames n (ofChild file kind clause n : Naming (InterfaceList String)) := by
  unfold ofChild
  split
  · rename_i c hc
    exact (blames_ofNode file kind c).within (Node.within_of_child? hc)
  · exact blames_pure _

end InterfaceList

namespace Node

variable (file : FileId) (spec : Node)

theorem blames_subprogramParts : Blames spec (spec.subprogramParts : Naming _) := by
  unfold subprogramParts
  split
  · exact blames_pure _
  · exact blames_pure _
  · rename_i hfunction hprocedure
    refine blames_fail (.lacks (.root spec) ⟨child?_eq_none_iff.mp hprocedure, nofun, ?_⟩)
    exact fun _ => child?_eq_none_iff.mp hfunction

theorem blames_designator : Blames spec (spec.designator : Naming String) := by
  unfold designator
  split
  · rename_i d hd
    exact blames_nameBy (.child (mem_children_of_child? hd) (.inl (kind_of_child? hd)))
  · exact spec.blames_name

theorem blames_parameters : Blames spec (spec.parameters file : Naming (List (Object String))) := by
  unfold parameters
  split
  · exact blames_pure _
  · rename_i list hlist
    apply ((InterfaceList.blames_ofNode file .parameter list).within (within_of_child? hlist)).bind
    intro params hparams
    split
    · exact blames_pure _
    · -- The first node that was handed back is what the list may not hold.
      rename_i c others hothers
      rw [InterfaceList.others_of_ofNode hparams] at hothers
      obtain ⟨item, hitem, hc⟩ := List.mem_filterMap.mp (hothers ▸ List.mem_cons_self)
      cases item with
      | object => cases hc
      | other =>
        cases hc
        have hholds := mem_interfaceItems_iff.mp hitem
        have hwithin := hholds.within.trans (within_of_child? hlist)
        refine blames_fail (.unexpected (within_of_child? hlist) (kind_of_child? hlist) hwithin
          hholds fun hkind => ?_)
        have hwrapper := hholds.not_wrapper
        rw [hkind] at hwrapper
        cases hwrapper

theorem blames_returnType (kind : SubprogramKind) :
    Blames spec (spec.returnType file kind : Naming (Option Expr)) := by
  cases kind with
  | procedure => exact blames_pure _
  | function =>
    refine Blames.bind ?_ fun mark _ => blames_pure _
    unfold require
    split
    · exact blames_pure _
    · rename_i hmark
      obtain ⟨hmark, hsubtype⟩ := Option.or_eq_none_iff.mp hmark
      refine blames_fail (.lacks (.root spec) ⟨child?_eq_none_iff.mp hmark, ?_, nofun⟩)
      exact fun _ => child?_eq_none_iff.mp hsubtype

end Node

theorem Subprogram.blames_ofNode (file : FileId) (n : Node) :
    Blames n (Subprogram.ofNode file n : Naming (Subprogram String)) := by
  apply (n.blames_required (by decide) (by decide)).bind
  intro outer houter
  have houter := Node.within_of_child? (Node.result_required_eq_ok.mp houter)
  apply (outer.blames_subprogramParts.within houter).bind
  intro parts hparts
  obtain ⟨kind, spec⟩ := parts
  have hspec := (Node.result_subprogramParts_eq_ok.mp hparts).within.trans houter
  apply (spec.blames_designator.within hspec).bind
  intro name _
  apply ((spec.blames_parameters file).within hspec).bind
  intro params _
  apply ((spec.blames_returnType file kind).within hspec).bind
  intro type _
  exact blames_pure _

theorem TypeDecl.blames_ofNode (file : FileId) (n : Node) :
    Blames n (TypeDecl.ofNode file n : Naming (TypeDecl String)) := by
  apply (n.typeParts.blames_name.within n.within_typeParts).bind
  intro name _
  apply (blames_of_succeeds Node.succeeds_typeDefinition).bind
  intro definition _
  exact blames_pure _

theorem SubtypeDecl.blames_ofNode (file : FileId) (n : Node) :
    Blames n (SubtypeDecl.ofNode file n : Naming (SubtypeDecl String)) := by
  apply n.blames_name.bind
  intro name _
  apply (n.blames_required (by decide) (by decide)).bind
  intro indication _
  exact blames_pure _

namespace Role

theorem kind_of_package {k : Kind} (h : ofKind k = .package) : k = .rule .packageDeclaration := by
  match k with
  | .rule r => cases r <;> first | rfl | cases h
  | .other s => cases h

theorem kind_of_component {k : Kind} (h : ofKind k = .component) :
    k = .rule .componentDeclaration := by
  match k with
  | .rule r => cases r <;> first | rfl | cases h
  | .other s => cases h

end Role

section Scopes

variable (ctx : Context) {n : Node}

theorem Node.blames_ensure {r : Rule} (h : n.kind = .rule r) :
    Blames n (n.ensure r : Naming Unit) :=
  blames_of_succeeds ⟨(), result_ensure_eq_ok.mpr h⟩

theorem Component.blames_ofNode (h : n.kind = .rule .componentDeclaration) :
    Blames n (Component.ofNode ctx n : Lowering (Component String)) := by
  apply (blames_read (Node.blames_ensure h)).bind
  intro _ _
  apply (blames_read n.blames_name).bind
  intro name _
  split
  · exact blames_pure _
  · apply (blames_read (InterfaceList.blames_ofChild ctx.file .generic .genericClause n)).bind
    intro generics _
    apply (blames_read (InterfaceList.blames_ofChild ctx.file .port .portClause n)).bind
    intro ports _
    apply (blames_of_succeeds ⟨(), (Lowering.yields_forM_skipAs.mpr rfl).result⟩).bind
    intro _ _
    exact blames_pure _

/-- The defects of an item are its own, if that is so for the packages in it. The kind of an item
agrees with its role, so no package or component is refused for its kind. -/
theorem DeclarativeItem.blames_lower {item : DeclarativeItem}
    (hrole : item.role = .ofKind item.node.kind)
    (hpackage : item.node.kind = .rule .packageDeclaration →
      Blames item.node (Package.ofNode ctx item.node : Lowering (Package String))) :
    Blames item.node (item.lower ctx : Lowering (List (Declaration String))) := by
  rw [lower]
  cases h : item.role with
  | subprogram =>
    exact (blames_read (Subprogram.blames_ofNode ctx.file _)).bind fun d _ => blames_pure _
  | package =>
    exact (hpackage (Role.kind_of_package (hrole ▸ h))).bind fun p _ => blames_pure _
  | type => exact (blames_read (TypeDecl.blames_ofNode ctx.file _)).bind fun d _ => blames_pure _
  | subtype =>
    exact (blames_read (SubtypeDecl.blames_ofNode ctx.file _)).bind fun d _ => blames_pure _
  | constant => exact (blames_read (Object.blames_ofNode ctx.file _ _)).bind fun d _ => blames_pure _
  | signal => exact (blames_read (Object.blames_ofNode ctx.file _ _)).bind fun d _ => blames_pure _
  | «variable» =>
    exact (blames_read (Object.blames_ofNode ctx.file _ _)).bind fun d _ => blames_pure _
  | component =>
    have hkind := Role.kind_of_component (hrole ▸ h)
    exact (Component.blames_ofNode ctx hkind).bind fun c _ => blames_pure _
  | unsupported u => exact (blames_skipAs _ _).bind fun _ _ => blames_pure _

theorem Package.blames_ofNode (h : n.kind = .rule .packageDeclaration) :
    Blames n (Package.ofNode ctx n : Lowering (Package String)) := by
  induction n using Node.packageInduction with
  | h n ih =>
    rw [ofNode]
    apply (blames_read (Node.blames_ensure h)).bind
    intro _ _
    apply (blames_read n.blames_name).bind
    intro name _
    split
    · exact blames_pure _
    · apply (blames_of_succeeds ⟨(), (Node.yields_skipHeader.mpr rfl).result⟩).bind
      intro _ _
      rw [declarationsOf_eq_mapM]
      have hitem : ∀ c ∈ n.packageItems, Blames n
          ((DeclarativeItem.classify c).lower ctx : Lowering (List (Declaration String))) := by
        intro c hc
        have hwithin := (Node.within_classify c).trans (Node.within_of_packageItem hc)
        exact (DeclarativeItem.blames_lower ctx (DeclarativeItem.role_classify c) (ih c hc)).within
          hwithin
      exact (blames_mapM hitem).map.bind fun ds _ => blames_pure _

theorem DesignFile.blames_lowerPart (n : Node) :
    Blames n (lowerPart ctx n : Lowering (List (Package String))) := by
  unfold lowerPart
  split
  · apply (blames_of_succeeds ⟨(), (Lowering.yields_forM_skipAs.mpr rfl).result⟩).bind
    exact fun _ _ => blames_pure _
  · exact (blames_skipAs _ _).bind fun _ _ => blames_pure _
  · exact (blames_skipAs _ _).bind fun _ _ => blames_pure _
  · exact (blames_skipAs _ _).bind fun _ _ => blames_pure _
  · split
    · rename_i hkind
      apply ((Package.blames_ofNode ctx hkind).within n.unwraps_libraryUnit.within).bind
      exact fun p _ => blames_pure _
    · exact (blames_skipAs _ _).bind fun _ _ => blames_pure _

theorem DesignFile.blames_lower (h : n.kind = .rule .designFile) :
    Blames n (lower ctx n : Lowering (List (Package String))) := by
  apply (blames_read (Node.blames_ensure h)).bind
  intro _ _
  have hpart : ∀ c ∈ n.unitParts, Blames n (lowerPart ctx c : Lowering (List (Package String))) :=
    fun c hc => (blames_lowerPart ctx c).within (Node.within_of_unitPart hc)
  exact (blames_mapM hpart).bind fun packages _ => blames_pure _

namespace Target

/-- The kind that the root of a tree has to have. -/
def rule : Target → Rule
  | package => .packageDeclaration
  | component => .componentDeclaration
  | designFile => .designFile

theorem blames_lower {target : Target} (h : n.kind = .rule target.rule) :
    Blames n (target.lower ctx n : Lowering (Product String)) := by
  cases target with
  | package => exact (Package.blames_ofNode ctx h).map
  | component => exact (Component.blames_ofNode ctx h).map
  | designFile => exact (DesignFile.blames_lower ctx h).map

theorem result_lower_of_kind_ne {target : Target} (h : n.kind ≠ .rule target.rule) :
    (target.lower ctx n : Lowering (Product String)).result =
      .error (.unexpected target.rule n.kind n.span.region) := by
  have hensure {r : Rule} (hr : n.kind ≠ .rule r) :
      (read (n.ensure r) : Lowering Unit).result = .error (.unexpectedNode n r) := by
    rw [Lowering.result_read, Node.ensure, if_neg hr]
    rfl
  cases target with
  | package =>
    rw [lower, result_map_eq_error, Package.ofNode]
    exact result_bind_eq_error.mpr (.inl (hensure h))
  | component =>
    rw [lower, result_map_eq_error]
    exact result_bind_eq_error.mpr (.inl (hensure h))
  | designFile =>
    rw [lower, result_map_eq_error]
    exact result_bind_eq_error.mpr (.inl (hensure h))

end Target
end Scopes

namespace Session

/-- If a tree is refused, then for a defect that it has: either its root is of another kind than
what it is to be lowered as, or one of its nodes has the defect. -/
theorem defect_exhibited {s : Session} {target : Target} {ctx : Context} {n : Node} {d : Defect}
    (h : (s.step (.lower target ctx n)).1 = .error d) :
    n.Exhibits d ∨
      n.kind ≠ .rule target.rule ∧ d = .unexpected target.rule n.kind n.span.region := by
  have hd := step_fails_iff.mp h
  by_cases hkind : n.kind = .rule target.rule
  · exact .inl (Target.blames_lower ctx hkind d hd)
  · have hroot := Target.result_lower_of_kind_ne ctx hkind
    exact .inr ⟨hkind, Except.error.inj (hd.symm.trans hroot)⟩

/-- A package with a package inside, in which the designator of a function is blank. -/
def blankFunction : Node :=
  let designator : Node := .leaf (.rule .designator) ⟨6, 8⟩ "  "
  let function : Node := .branch (.rule .functionSpecification) ⟨5, 9⟩
    [designator, .leaf (.rule .identifier) ⟨8, 9⟩ "f"]
  let subprogram : Node := .branch (.rule .subprogramDeclaration) ⟨5, 10⟩
    [.branch (.rule .subprogramSpecification) ⟨5, 10⟩ [function]]
  let inner : Node := .branch (.rule .packageDeclaration) ⟨3, 11⟩
    [.leaf (.rule .identifier) ⟨3, 4⟩ "q",
      .branch (.rule .packageDeclarativePart) ⟨4, 10⟩ [subprogram]]
  .branch (.rule .packageDeclaration) ⟨0, 12⟩
    [.leaf (.rule .identifier) ⟨0, 1⟩ "p", .branch (.rule .packageDeclarativePart) ⟨2, 11⟩
      [.branch (.rule .packageDeclarativeItem) ⟨2, 11⟩ [inner]]]

theorem blankFunction_exhibits :
    let d : Defect := .missing (.rule .functionSpecification) .identifier ⟨5, 4⟩
    (start.step (.lower .package ⟨⟨0⟩, false⟩ blankFunction)).1 = .error d ∧
      (blankFunction.Exhibits d ∨
        blankFunction.kind ≠ .rule Target.package.rule ∧
          d = .unexpected Target.package.rule blankFunction.kind blankFunction.span.region) := by
  intro d
  have h : (start.step (.lower .package ⟨⟨0⟩, false⟩ blankFunction)).1 = .error d := by
    decide +kernel
  exact ⟨h, defect_exhibited h⟩

end Session

end VhdlLowering
