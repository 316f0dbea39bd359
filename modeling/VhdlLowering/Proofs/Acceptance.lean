import VhdlLowering.Proofs.Grammar
import VhdlLowering.Proofs.PackageWalk
import VhdlLowering.Proofs.Steps

/-!
# Which packages are accepted

A package is lowered without a defect if and only if it is well formed; the state of the session
does not matter. Each reader has its own shape of node, on which it succeeds.
-/

namespace VhdlLowering

open Traced

namespace Node

variable {file : FileId} {n : Node}

theorem succeeds_required {r : Rule} :
    (n.required r : Naming Node).Succeeds ↔ ∃ c, n.child? r = some c := by
  simp only [Succeeds, result_required_eq_ok]

theorem succeeds_name : (n.name : Naming String).Succeeds ↔ n.IsNamed := by
  simp only [Succeeds, result_name_eq_ok, IsNamed]
  constructor
  · intro h
    rcases h with ⟨_, c, hc, htext, -⟩
    exact ⟨c, hc, htext⟩
  · intro h
    rcases h with ⟨c, hc, htext⟩
    exact ⟨_, c, hc, htext, rfl⟩

theorem succeeds_names :
    (n.names : Naming (List String)).Succeeds ↔
      n.identifiers ≠ [] ∧ ∀ c ∈ n.identifiers, c.sourceText ≠ "" := by
  simp only [Succeeds, result_names_eq_ok]
  constructor
  · intro h
    rcases h with ⟨_, hne, htexts, -⟩
    exact ⟨hne, htexts⟩
  · intro h
    rcases h with ⟨hne, htexts⟩
    exact ⟨_, hne, htexts, rfl⟩

theorem succeeds_nameBy {ident : Node} :
    (n.nameBy ident : Naming String).Succeeds ↔ ident.sourceText ≠ "" := by
  simp only [Succeeds, result_nameBy_eq_ok]
  constructor
  · intro h
    rcases h with ⟨_, htext, -⟩
    exact htext
  · intro htext
    exact ⟨_, htext, rfl⟩

end Node

theorem Object.succeeds_ofNode {file : FileId} {kind : ObjectKind} {n : Node} :
    (Object.ofNode file kind n : Naming (List (Object String))).Succeeds ↔ n.IsObject := by
  rw [ofNode, succeeds_bind_of_forall (p := ∃ c, n.child? (.rule .subtypeIndication) = some c),
    Node.succeeds_names]
  · constructor
    · intro h
      rcases h with ⟨⟨hne, htexts⟩, htype⟩
      exact ⟨hne, htexts, htype⟩
    · intro h
      rcases h with ⟨hne, htexts, htype⟩
      exact ⟨⟨hne, htexts⟩, htype⟩
  · intro names
    rw [succeeds_bind_pure, Node.succeeds_required]

namespace Node

variable {file : FileId} {n : Node}

theorem isMode_iff : n.IsMode ↔ (Direction.ofKeyword? n.sourceText).isSome := by
  rw [IsMode, Direction.ofKeyword?, List.find?_isSome]
  constructor
  · intro h
    rcases h with ⟨d, hd⟩
    exact ⟨d, by cases d <;> decide, by simp [hd]⟩
  · intro h
    rcases h with ⟨d, -, hd⟩
    exact ⟨d, (eq_of_beq hd).symm⟩

theorem succeeds_direction {kind : ObjectKind} :
    (n.direction kind : Naming (Option Direction)).Succeeds ↔
      ∀ c, n.child? (.rule .mode) = some c → c.IsMode := by
  unfold direction
  cases n.child? (.rule .mode) with
  | none => cases kind <;> simp
  | some mode =>
    have hmode : (∀ c, some mode = some c → c.IsMode) ↔ mode.IsMode := by simp
    rw [hmode, isMode_iff]
    cases hd : Direction.ofKeyword? mode.sourceText with
    | none =>
      simp only [hd]
      exact ⟨fun h => absurd h (not_succeeds_fail _), fun h => (by cases h)⟩
    | some d => simp [hd]

theorem succeeds_interfaceObjects {kind : ObjectKind} :
    (n.interfaceObjects file kind : Naming (List (Object String))).Succeeds ↔
      n.IsInterfaceObject := by
  rw [interfaceObjects, succeeds_bind_of_forall
      (p := (∀ c, n.child? (.rule .mode) = some c → c.IsMode) ∧
        ∃ c, n.child? (.rule .subtypeIndication) = some c), succeeds_names]
  · constructor
    · intro h
      rcases h with ⟨⟨hne, htexts⟩, hmode, htype⟩
      exact ⟨⟨hne, htexts, htype⟩, hmode⟩
    · intro h
      rcases h with ⟨⟨hne, htexts, htype⟩, hmode⟩
      exact ⟨⟨hne, htexts⟩, hmode, htype⟩
  · intro names
    rw [succeeds_bind_of_forall (p := ∃ c, n.child? (.rule .subtypeIndication) = some c),
      succeeds_direction]
    intro direction
    rw [succeeds_bind_pure, succeeds_required]

end Node

theorem InterfaceList.succeeds_ofNode {file : FileId} {kind : ObjectKind} {clause : Node} :
    (InterfaceList.ofNode file kind clause : Naming (InterfaceList String)).Succeeds ↔
      clause.IsInterfaceClause := by
  rw [ofNode, succeeds_bind_pure, succeeds_mapM]
  constructor
  · intro h c hc
    exact Node.succeeds_interfaceObjects.mp (h _ (Node.mem_interfaceItems_iff.mpr hc))
  · intro h item hitem
    cases item with
    | object c =>
      exact Node.succeeds_interfaceObjects.mpr (h c (Node.mem_interfaceItems_iff.mp hitem))
    | other c => exact succeeds_pure _

theorem InterfaceList.succeeds_ofChild {file : FileId} {kind : ObjectKind} {clause : Rule}
    {n : Node} :
    (InterfaceList.ofChild file kind clause n : Naming (InterfaceList String)).Succeeds ↔
      ∀ c, n.child? clause = some c → c.IsInterfaceClause := by
  rw [ofChild]
  cases n.child? (.rule clause) with
  | none => simp
  | some c =>
    rw [succeeds_ofNode]
    simp

namespace Node

variable {file : FileId} {n spec : Node} {kind : SubprogramKind}

theorem result_subprogramParts_eq_ok :
    (n.subprogramParts : Naming (SubprogramKind × Node)).result = .ok (kind, spec) ↔
      n.Specifies kind spec := by
  rw [subprogramParts]
  cases hf : n.child? (.rule .functionSpecification) with
  | some f =>
    constructor
    · intro h
      cases h
      exact .function hf
    · rintro (⟨h⟩ | ⟨h, -⟩)
      · cases hf.symm.trans h
        rfl
      · cases hf.symm.trans h
  | none =>
    cases hp : n.child? (.rule .procedureSpecification) with
    | some p =>
      constructor
      · intro h
        cases h
        exact .procedure hf hp
      · rintro (⟨h⟩ | ⟨-, h⟩)
        · cases hf.symm.trans h
        · cases hp.symm.trans h
          rfl
    | none =>
      constructor
      · intro h
        cases h
      · rintro (⟨h⟩ | ⟨-, h⟩)
        · cases hf.symm.trans h
        · cases hp.symm.trans h

theorem succeeds_designator :
    (spec.designator : Naming String).Succeeds ↔
      ∃ c, (spec.child? (.rule .designator)).or (spec.child? (.rule .identifier)) = some c ∧
        c.sourceText ≠ "" := by
  rw [designator]
  cases spec.child? (.rule .designator) with
  | none =>
    rw [Option.none_or]
    exact succeeds_name
  | some d =>
    rw [Option.some_or]
    exact succeeds_nameBy.trans (by simp)

theorem succeeds_parameters :
    (spec.parameters file : Naming (List (Object String))).Succeeds ↔
      ∀ list, spec.child? (.rule .formalParameterList) = some list → list.IsParameterList := by
  unfold parameters
  cases spec.child? (.rule .formalParameterList) with
  | none => simp
  | some list =>
    have hlist : (∀ l, some list = some l → l.IsParameterList) ↔ list.IsParameterList := by simp
    rw [hlist, succeeds_bind]
    constructor
    · intro h
      rcases h with ⟨params, hparams, hrest⟩
      refine ⟨InterfaceList.succeeds_ofNode.mp ⟨params, hparams⟩, fun c hc => ?_⟩
      split at hrest
      · rename_i hothers
        rw [InterfaceList.others_of_ofNode hparams, List.filterMap_eq_nil_iff] at hothers
        cases hothers _ (mem_interfaceItems_iff.mpr hc)
      · exact not_succeeds_fail _ hrest
    · intro h
      rcases h with ⟨hobjects, hnothing⟩
      obtain ⟨params, hparams⟩ : (InterfaceList.ofNode file .parameter list :
          Naming (InterfaceList String)).Succeeds := InterfaceList.succeeds_ofNode.mpr hobjects
      refine ⟨params, hparams, ?_⟩
      have hothers : params.others = [] := by
        rw [InterfaceList.others_of_ofNode hparams, List.filterMap_eq_nil_iff]
        intro item hitem
        cases item with
        | object c => rfl
        | other c => exact absurd (mem_interfaceItems_iff.mp hitem) (hnothing c)
      rw [hothers]
      exact succeeds_pure _

theorem succeeds_returnType :
    (spec.returnType file kind : Naming (Option Expr)).Succeeds ↔
      (kind = .function →
        ∃ c, (spec.child? (.rule .typeMark)).or (spec.child? (.rule .subtypeIndication)) =
          some c) := by
  cases kind with
  | procedure => simp [returnType]
  | function =>
    change (require _ _ >>= _ : Naming _).Succeeds ↔ _
    rw [succeeds_bind_pure]
    simp only [Succeeds, result_require_eq_ok, forall_const]

end Node

theorem Subprogram.succeeds_ofNode {file : FileId} {n : Node} :
    (Subprogram.ofNode file n : Naming (Subprogram String)).Succeeds ↔ n.IsSubprogram := by
  constructor
  · intro h
    obtain ⟨outer, houter, h⟩ := succeeds_bind.mp h
    obtain ⟨⟨kind, spec⟩, hparts, h⟩ := succeeds_bind.mp h
    obtain ⟨name, hname, h⟩ := succeeds_bind.mp h
    obtain ⟨params, hparams, h⟩ := succeeds_bind.mp h
    exact ⟨outer, kind, spec, Node.result_required_eq_ok.mp houter,
      Node.result_subprogramParts_eq_ok.mp hparts, Node.succeeds_designator.mp ⟨name, hname⟩,
      Node.succeeds_parameters.mp ⟨params, hparams⟩,
      Node.succeeds_returnType.mp (succeeds_bind_pure.mp h)⟩
  · intro h
    rcases h with ⟨outer, kind, spec, houter, hparts, hname, hparams, hreturn⟩
    obtain ⟨name, hname⟩ := Node.succeeds_designator.mpr hname
    obtain ⟨params, hparams⟩ : (spec.parameters file : Naming (List (Object String))).Succeeds :=
      Node.succeeds_parameters.mpr hparams
    refine succeeds_bind.mpr ⟨outer, Node.result_required_eq_ok.mpr houter, ?_⟩
    refine succeeds_bind.mpr ⟨(kind, spec), Node.result_subprogramParts_eq_ok.mpr hparts, ?_⟩
    refine succeeds_bind.mpr ⟨name, hname, succeeds_bind.mpr ⟨params, hparams, ?_⟩⟩
    exact succeeds_bind_pure.mpr (Node.succeeds_returnType.mpr hreturn)

theorem Node.succeeds_typeDefinition {file : FileId} {n : Node} :
    (n.typeDefinition file : Naming (TypeDefinition String)).Succeeds := by
  unfold typeDefinition
  split
  · exact succeeds_pure _
  · split
    · refine succeeds_map.mpr (succeeds_mapM.mpr fun c _ => ?_)
      exact ⟨_, rfl⟩
    · exact succeeds_pure _
    · exact succeeds_pure _

theorem TypeDecl.succeeds_ofNode {file : FileId} {n : Node} :
    (TypeDecl.ofNode file n : Naming (TypeDecl String)).Succeeds ↔ n.typeParts.IsNamed := by
  rw [ofNode, succeeds_bind_of_forall (p := True), Node.succeeds_name, and_true]
  intro name
  rw [succeeds_bind_pure]
  exact iff_true_intro Node.succeeds_typeDefinition

theorem SubtypeDecl.succeeds_ofNode {file : FileId} {n : Node} :
    (SubtypeDecl.ofNode file n : Naming (SubtypeDecl String)).Succeeds ↔
      n.IsNamed ∧ ∃ c, n.child? (.rule .subtypeIndication) = some c := by
  rw [ofNode, succeeds_bind_of_forall (p := ∃ c, n.child? (.rule .subtypeIndication) = some c),
    Node.succeeds_name]
  intro name
  rw [succeeds_bind_pure, Node.succeeds_required]

variable {file : FileId}

theorem Component.succeeds_ofNode {n : Node} :
    (Component.ofNode ⟨file, false⟩ n : Lowering (Component String)).Succeeds ↔
      n.IsComponent := by
  constructor
  · intro h
    obtain ⟨_, hkind, h⟩ := succeeds_bind.mp h
    obtain ⟨name, hname, h⟩ := succeeds_bind.mp h
    obtain ⟨generics, hgenerics, h⟩ := succeeds_bind.mp h
    obtain ⟨ports, hports, -⟩ := succeeds_bind.mp h
    exact ⟨Node.result_ensure_eq_ok.mp hkind, Node.succeeds_name.mp ⟨name, hname⟩,
      InterfaceList.succeeds_ofChild.mp ⟨generics, hgenerics⟩,
      InterfaceList.succeeds_ofChild.mp ⟨ports, hports⟩⟩
  · intro h
    rcases h with ⟨hkind, hname, hgenerics, hports⟩
    obtain ⟨name, hname⟩ := Node.succeeds_name.mpr hname
    obtain ⟨generics, hgenerics⟩ : (InterfaceList.ofChild file .generic .genericClause n :
        Naming (InterfaceList String)).Succeeds := InterfaceList.succeeds_ofChild.mpr hgenerics
    obtain ⟨ports, hports⟩ : (InterfaceList.ofChild file .port .portClause n :
        Naming (InterfaceList String)).Succeeds := InterfaceList.succeeds_ofChild.mpr hports
    refine succeeds_bind.mpr ⟨(), Node.result_ensure_eq_ok.mpr hkind, ?_⟩
    refine succeeds_bind.mpr ⟨name, hname, succeeds_bind.mpr ⟨generics, hgenerics, ?_⟩⟩
    refine succeeds_bind.mpr ⟨ports, hports, succeeds_bind_pure.mpr ⟨(), ?_⟩⟩
    exact (Lowering.yields_forM_skipAs.mpr rfl).result

/-- Whether an item is lowered depends on its shape, if that is so for the packages in it. -/
theorem DeclarativeItem.succeeds_lower {item : DeclarativeItem}
    (hpackage : (Package.ofNode ⟨file, false⟩ item.node : Lowering (Package String)).Succeeds ↔
      item.node.IsPackage) :
    (item.lower ⟨file, false⟩ : Lowering (List (Declaration String))).Succeeds ↔
      item.IsWellFormed := by
  obtain ⟨role, n⟩ := item
  rw [lower]
  cases role with
  | package =>
    refine succeeds_bind_pure.trans (hpackage.trans ⟨.package, fun h => ?_⟩)
    cases h with
    | package h => exact h
  | component =>
    refine succeeds_bind_pure.trans (Component.succeeds_ofNode.trans ⟨.component, fun h => ?_⟩)
    cases h with
    | component h => exact h
  | subprogram =>
    refine succeeds_bind_pure.trans (Subprogram.succeeds_ofNode.trans ⟨.subprogram, fun h => ?_⟩)
    cases h with
    | subprogram h => exact h
  | type =>
    refine succeeds_bind_pure.trans (TypeDecl.succeeds_ofNode.trans ⟨.type, fun h => ?_⟩)
    cases h with
    | type h => exact h
  | subtype =>
    refine succeeds_bind_pure.trans (SubtypeDecl.succeeds_ofNode.trans ⟨?_, ?_⟩)
    · intro h
      rcases h with ⟨hname, htype⟩
      exact .subtype hname htype
    · intro h
      cases h with
      | subtype hname htype => exact ⟨hname, htype⟩
  | constant =>
    refine succeeds_bind_pure.trans (Object.succeeds_ofNode.trans ⟨.constant, fun h => ?_⟩)
    cases h with
    | constant h => exact h
  | signal =>
    refine succeeds_bind_pure.trans (Object.succeeds_ofNode.trans ⟨.signal, fun h => ?_⟩)
    cases h with
    | signal h => exact h
  | «variable» =>
    refine succeeds_bind_pure.trans (Object.succeeds_ofNode.trans ⟨.variable, fun h => ?_⟩)
    cases h with
    | «variable» h => exact h
  | unsupported u => exact succeeds_bind_pure.trans ⟨fun _ => .unsupported, fun _ => ⟨(), rfl⟩⟩

theorem Package.succeeds_ofNode {n : Node} :
    (Package.ofNode ⟨file, false⟩ n : Lowering (Package String)).Succeeds ↔ n.IsPackage := by
  induction n using Node.packageInduction with
  | h n ih =>
    have hitems : (Package.declarationsOf ⟨file, false⟩ n.packageItems :
        Lowering (List (Declaration String))).Succeeds ↔
          ∀ c ∈ n.packageItems, (DeclarativeItem.classify c).IsWellFormed := by
      rw [declarationsOf_eq_mapM, succeeds_map, succeeds_mapM]
      exact forall₂_congr fun c hc => DeclarativeItem.succeeds_lower (ih c hc)
    rw [ofNode]
    constructor
    · intro h
      obtain ⟨_, hkind, h⟩ := succeeds_bind.mp h
      obtain ⟨name, hname, h⟩ := succeeds_bind.mp h
      obtain ⟨_, -, h⟩ := succeeds_bind.mp h
      exact .intro (Node.result_ensure_eq_ok.mp hkind) (Node.succeeds_name.mp ⟨name, hname⟩)
        (hitems.mp (succeeds_bind_pure.mp h))
    · intro h
      rcases h with ⟨hkind, hname, h⟩
      obtain ⟨name, hname⟩ := Node.succeeds_name.mpr hname
      refine succeeds_bind.mpr ⟨(), Node.result_ensure_eq_ok.mpr hkind, ?_⟩
      refine succeeds_bind.mpr ⟨name, hname, succeeds_bind.mpr ⟨(), ?_, ?_⟩⟩
      · exact (Node.yields_skipHeader.mpr rfl).result
      · exact succeeds_bind_pure.mpr (hitems.mpr h)

end VhdlLowering
