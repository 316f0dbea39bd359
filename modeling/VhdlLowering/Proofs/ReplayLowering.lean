import VhdlLowering.Proofs.Replay

/-!
# Lowering replays its trace

One lemma for each reader, from single names to design files. All of them say the same: the run over
symbols replays the run over texts, and looking up the symbols gives the texts.
-/

namespace VhdlLowering

open Replays

variable {T : NameTable}

theorem replays_intern (s : String) :
    Replays T (fun x y => T.resolve? x = some y) (intern s : TableM Symbol) (intern s : Naming String) :=
  fun t hT => ⟨(t.intern s).1, rfl, NameTable.resolve?_of_prefix hT (t.resolve?_intern s)⟩

theorem replays_fail {α β : Type} {R : α → β → Prop} (d : Defect) :
    Replays T R (MonadNaming.fail d : TableM α) (MonadNaming.fail d : Naming β) :=
  fun _ _ => rfl

theorem replays_require {α : Type} (x : Option α) (d : Defect) :
    Replays T (· = ·) (require x d : TableM α) (require x d : Naming α) := by
  cases x with
  | none => exact replays_fail d
  | some a => exact Replays.pure rfl

namespace Node

theorem replays_ensure (n : Node) (r : Rule) :
    Replays T (· = ·) (n.ensure r : TableM Unit) (n.ensure r : Naming Unit) := by
  unfold ensure
  split
  · exact Replays.pure rfl
  · exact replays_fail _

theorem replays_required (n : Node) (r : Rule) :
    Replays T (· = ·) (n.required r : TableM Node) (n.required r : Naming Node) :=
  replays_require _ _

theorem replays_nameBy (n ident : Node) :
    Replays T (fun x y => T.resolve? x = some y) (n.nameBy ident : TableM Symbol)
      (n.nameBy ident : Naming String) := by
  unfold nameBy
  split
  · exact replays_fail _
  · exact replays_intern _

theorem replays_name (n : Node) :
    Replays T (fun x y => T.resolve? x = some y) (n.name : TableM Symbol)
      (n.name : Naming String) := by
  apply (n.replays_required _).bind
  intro a b hab
  subst hab
  exact n.replays_nameBy a

theorem replays_names (n : Node) :
    Replays T (fun xs ys => xs.map T.resolve? = ys.map some) (n.names : TableM (List Symbol))
      (n.names : Naming (List String)) := by
  apply (mapM fun c _ => n.replays_nameBy c).bind
  intro xs ys h
  have hempty : xs.isEmpty = ys.isEmpty := by
    simpa [List.isEmpty_map] using congrArg List.isEmpty h
  rw [hempty]
  split
  · exact replays_fail _
  · exact Replays.pure h

end Node

theorem Object.map_forNames {ν μ : Type} (f : ν → μ) (kind : ObjectKind)
    (direction : Option Direction) (type : Expr) (value : Option Expr) (span : FileSpan)
    (names : List ν) :
    (forNames kind direction type value span names).map (Object.map f) =
      forNames kind direction type value span (names.map f) := by
  simp [forNames, Object.map]

theorem Object.replays_ofNode (file : FileId) (kind : ObjectKind) (n : Node) :
    Replays T (fun xs ys => xs.map (Object.map T.resolve?) = ys.map (Object.map some))
      (Object.ofNode file kind n : TableM (List (Object Symbol)))
      (Object.ofNode file kind n : Naming (List (Object String))) := by
  apply n.replays_names.bind
  intro xs ys h
  apply (n.replays_required _).bind
  intro a b hab
  apply Replays.pure
  subst hab
  rw [map_forNames, map_forNames, h]

theorem Node.replays_direction (kind : ObjectKind) (n : Node) :
    Replays T (· = ·) (n.direction kind : TableM (Option Direction))
      (n.direction kind : Naming (Option Direction)) := by
  unfold direction
  split
  · split
    · exact Replays.pure rfl
    · exact replays_fail _
  · split <;> exact Replays.pure rfl

theorem Node.replays_interfaceObjects (file : FileId) (kind : ObjectKind) (n : Node) :
    Replays T (fun xs ys => xs.map (Object.map T.resolve?) = ys.map (Object.map some))
      (n.interfaceObjects file kind : TableM (List (Object Symbol)))
      (n.interfaceObjects file kind : Naming (List (Object String))) := by
  apply n.replays_names.bind
  intro xs ys h
  apply (n.replays_direction kind).bind
  intro d e hde
  apply (n.replays_required _).bind
  intro a b hab
  apply Replays.pure
  subst hde hab
  rw [Object.map_forNames, Object.map_forNames, h]

namespace InterfaceList

/-- Interface lists that agree once the names of the first are looked up. -/
def StandsFor (T : NameTable) (x : InterfaceList Symbol) (y : InterfaceList String) : Prop :=
  x.objects.map (Object.map T.resolve?) = y.objects.map (Object.map some) ∧ x.others = y.others

theorem replays_itemObjects (file : FileId) (kind : ObjectKind) (item : InterfaceItem) :
    Replays T (fun xs ys => xs.map (Object.map T.resolve?) = ys.map (Object.map some))
      (itemObjects file kind item : TableM (List (Object Symbol)))
      (itemObjects file kind item : Naming (List (Object String))) := by
  cases item with
  | object n => exact n.replays_interfaceObjects file kind
  | other n => exact Replays.pure rfl

theorem replays_ofNode (file : FileId) (kind : ObjectKind) (clause : Node) :
    Replays T (StandsFor T) (ofNode file kind clause : TableM (InterfaceList Symbol))
      (ofNode file kind clause : Naming (InterfaceList String)) := by
  apply (mapM fun item _ => replays_itemObjects file kind item).bind
  intro xss yss h
  refine Replays.pure ⟨?_, rfl⟩
  rw [List.map_flatten, List.map_flatten, h]

theorem replays_ofChild (file : FileId) (kind : ObjectKind) (rule : Rule) (n : Node) :
    Replays T (StandsFor T) (ofChild file kind rule n : TableM (InterfaceList Symbol))
      (ofChild file kind rule n : Naming (InterfaceList String)) := by
  unfold ofChild
  split
  · exact replays_ofNode file kind _
  · exact Replays.pure ⟨rfl, rfl⟩

end InterfaceList

namespace Node

theorem replays_subprogramParts (spec : Node) :
    Replays T (· = ·) (spec.subprogramParts : TableM (SubprogramKind × Node))
      (spec.subprogramParts : Naming (SubprogramKind × Node)) := by
  unfold subprogramParts
  split
  · exact Replays.pure rfl
  · exact Replays.pure rfl
  · exact replays_fail _

theorem replays_designator (spec : Node) :
    Replays T (fun x y => T.resolve? x = some y) (spec.designator : TableM Symbol)
      (spec.designator : Naming String) := by
  unfold designator
  split
  · exact spec.replays_nameBy _
  · exact spec.replays_name

theorem replays_parameters (file : FileId) (spec : Node) :
    Replays T (fun xs ys => xs.map (Object.map T.resolve?) = ys.map (Object.map some))
      (spec.parameters file : TableM (List (Object Symbol)))
      (spec.parameters file : Naming (List (Object String))) := by
  unfold parameters
  split
  · exact Replays.pure rfl
  · apply (InterfaceList.replays_ofNode file _ _).bind
    intro x y h
    obtain ⟨hobjects, hothers⟩ := h
    rw [hothers]
    split
    · exact Replays.pure hobjects
    · exact replays_fail _

theorem replays_returnType (file : FileId) (kind : SubprogramKind) (spec : Node) :
    Replays T (· = ·) (spec.returnType file kind : TableM (Option Expr))
      (spec.returnType file kind : Naming (Option Expr)) := by
  cases kind with
  | function => exact (replays_require _ _).bind fun _ _ hab => Replays.pure (by rw [hab])
  | procedure => exact Replays.pure rfl

theorem replays_literalName (n : Node) :
    Replays T (fun x y => T.resolve? x = some y) (n.literalName : TableM Symbol)
      (n.literalName : Naming String) :=
  replays_intern _

theorem replays_typeDefinition (file : FileId) (n : Node) :
    Replays T (fun x y => x.map T.resolve? = y.map some)
      (n.typeDefinition file : TableM (TypeDefinition Symbol))
      (n.typeDefinition file : Naming (TypeDefinition String)) := by
  unfold typeDefinition
  split
  · exact Replays.pure rfl
  · split
    · exact (mapM fun c _ => c.replays_literalName).map fun xs ys h =>
        congrArg TypeDefinition.enumeration h
    · exact Replays.pure rfl
    · exact Replays.pure rfl

end Node

theorem Subprogram.replays_ofNode (file : FileId) (n : Node) :
    Replays T (fun x y => x.map T.resolve? = y.map some)
      (Subprogram.ofNode file n : TableM (Subprogram Symbol))
      (Subprogram.ofNode file n : Naming (Subprogram String)) := by
  apply (n.replays_required _).bind
  intro outer _ hspec
  subst hspec
  apply outer.replays_subprogramParts.bind
  intro parts _ hparts
  subst hparts
  obtain ⟨kind, spec⟩ := parts
  apply spec.replays_designator.bind
  intro x y hname
  apply (spec.replays_parameters file).bind
  intro xs ys hparams
  apply (spec.replays_returnType file kind).bind
  intro _ _ htype
  apply Replays.pure
  simp [Subprogram.map, hname, hparams, htype]

theorem TypeDecl.replays_ofNode (file : FileId) (n : Node) :
    Replays T (fun x y => x.map T.resolve? = y.map some)
      (TypeDecl.ofNode file n : TableM (TypeDecl Symbol))
      (TypeDecl.ofNode file n : Naming (TypeDecl String)) := by
  apply n.typeParts.replays_name.bind
  intro x y hname
  apply (n.typeParts.replays_typeDefinition file).bind
  intro d e hdef
  apply Replays.pure
  simp [TypeDecl.map, hname, hdef]

theorem SubtypeDecl.replays_ofNode (file : FileId) (n : Node) :
    Replays T (fun x y => x.map T.resolve? = y.map some)
      (SubtypeDecl.ofNode file n : TableM (SubtypeDecl Symbol))
      (SubtypeDecl.ofNode file n : Naming (SubtypeDecl String)) := by
  apply n.replays_name.bind
  intro x y hname
  apply (n.replays_required _).bind
  intro a b hab
  apply Replays.pure
  simp [SubtypeDecl.map, hname, hab]

section Scopes

variable (ctx : Context)

theorem SessionM.run_read_of_ok {α : Type} {x : TableM α} {s : Session} {a : α} {t : NameTable}
    (h : x.run s.names = .ok a t) : (read x : SessionM α).run s = .ok a { s with names := t } := by
  rw [EStateM.run] at h
  simp only [EStateM.run, read, h]

theorem SessionM.run_read_of_error {α : Type} {x : TableM α} {s : Session} {d : Defect}
    {t : NameTable} (h : x.run s.names = .error d t) :
    (read x : SessionM α).run s = .error d { s with names := t } := by
  rw [EStateM.run] at h
  simp only [EStateM.run, read, h]

theorem replays_read {α β : Type} {R : α → β → Prop} {x : TableM α} {y : Naming β}
    (h : Replays T R x y) : Replays T R (read x : SessionM α) (read y : Lowering β) := by
  intro s hT
  have hafter : Follower.followAll s (read y : Lowering β).trace =
      { s with names := Follower.followAll s.names y.trace } :=
    Follower.followAll_nameEvents s y.trace
  rw [hafter] at hT ⊢
  have hrun := h s.names hT
  rw [Lowering.result_read]
  cases hy : y.result with
  | error d =>
    rw [hy] at hrun
    exact SessionM.run_read_of_error hrun
  | ok b =>
    rw [hy] at hrun
    obtain ⟨a, ha, hab⟩ := hrun
    exact ⟨a, SessionM.run_read_of_ok ha, hab⟩

theorem Node.replays_skipAs (label : String) (n : Node) :
    Replays T (· = ·) (n.skipAs label : SessionM Unit) (n.skipAs label : Lowering Unit) :=
  fun _ _ => ⟨(), rfl, rfl⟩

theorem Node.replays_forM_skipAs (label : String) (ns : List Node) :
    Replays T (· = ·) (ns.forM (Node.skipAs label) : SessionM Unit)
      (ns.forM (Node.skipAs label) : Lowering Unit) := by
  induction ns with
  | nil => exact Replays.pure rfl
  | cons n ns ih => exact (n.replays_skipAs label).bind fun _ _ _ => ih

theorem Node.replays_skipHeader (n : Node) :
    Replays T (· = ·) (n.skipHeader : SessionM Unit) (n.skipHeader : Lowering Unit) := by
  have hchild (o : Option Node) (label : String) :
      Replays T (· = ·) (o.forM (skipAs label) : SessionM Unit)
        (o.forM (skipAs label) : Lowering Unit) := by
    cases o with
    | none => exact Replays.pure rfl
    | some c => exact c.replays_skipAs label
  unfold skipHeader
  split
  · exact Replays.pure rfl
  · exact (hchild _ _).bind fun _ _ _ => hchild _ _

theorem Component.replays_ofNode (n : Node) :
    Replays T (fun x y => x.map T.resolve? = y.map some)
      (Component.ofNode ctx n : SessionM (Component Symbol))
      (Component.ofNode ctx n : Lowering (Component String)) := by
  apply (replays_read (n.replays_ensure _)).bind
  intro _ _ _
  apply (replays_read n.replays_name).bind
  intro x y hname
  split
  · exact Replays.pure (by simp [Component.map, hname])
  · apply (replays_read (InterfaceList.replays_ofChild ctx.file _ _ n)).bind
    intro gs gs' hgs
    apply (replays_read (InterfaceList.replays_ofChild ctx.file _ _ n)).bind
    intro ps ps' hps
    rw [hgs.2, hps.2]
    apply (Node.replays_forM_skipAs _ _).bind
    intro _ _ _
    apply Replays.pure
    simp [Component.map, hname, hgs.1, hps.1]

/-- An item replays its trace if the package that it may be does. -/
theorem DeclarativeItem.replays_lower (item : DeclarativeItem)
    (hpackage : Replays T (fun x y => Package.map T.resolve? x = Package.map some y)
      (Package.ofNode ctx item.node : SessionM (Package Symbol))
      (Package.ofNode ctx item.node : Lowering (Package String))) :
    Replays T (fun xs ys => xs.map (Declaration.map T.resolve?) = ys.map (Declaration.map some))
      (item.lower ctx : SessionM (List (Declaration Symbol)))
      (item.lower ctx : Lowering (List (Declaration String))) := by
  have hobjects (d : {ν : Type} → Object ν → Declaration ν)
      (hd : ∀ {ν μ : Type} (f : ν → μ) o, (d o).map f = d (o.map f)) {xs : List (Object Symbol)}
      {ys : List (Object String)} (h : xs.map (Object.map T.resolve?) = ys.map (Object.map some)) :
      (xs.map d).map (Declaration.map T.resolve?) = (ys.map d).map (Declaration.map some) := by
    simpa [List.map_map, Function.comp_def, hd] using congrArg (List.map d) h
  rw [DeclarativeItem.lower, DeclarativeItem.lower]
  match item.role with
  | .subprogram =>
    apply (replays_read (Subprogram.replays_ofNode ctx.file _)).bind
    intro x y h
    apply Replays.pure
    simp [Declaration.map, h]
  | .package =>
    apply hpackage.bind
    intro x y h
    apply Replays.pure
    simp [Declaration.map_package, h]
  | .type =>
    apply (replays_read (TypeDecl.replays_ofNode ctx.file _)).bind
    intro x y h
    apply Replays.pure
    simp [Declaration.map, h]
  | .subtype =>
    apply (replays_read (SubtypeDecl.replays_ofNode ctx.file _)).bind
    intro x y h
    apply Replays.pure
    simp [Declaration.map, h]
  | .constant =>
    apply (replays_read (Object.replays_ofNode ctx.file _ _)).bind
    intro x y h
    apply Replays.pure
    exact hobjects Declaration.constant (fun _ _ => rfl) h
  | .signal =>
    apply (replays_read (Object.replays_ofNode ctx.file _ _)).bind
    intro x y h
    apply Replays.pure
    exact hobjects Declaration.signal (fun _ _ => rfl) h
  | .variable =>
    apply (replays_read (Object.replays_ofNode ctx.file _ _)).bind
    intro x y h
    apply Replays.pure
    exact hobjects Declaration.variable (fun _ _ => rfl) h
  | .component =>
    apply (Component.replays_ofNode ctx _).bind
    intro x y h
    apply Replays.pure
    simp [Declaration.map, h]
  | .unsupported u =>
    exact (item.node.replays_skipAs _).bind fun _ _ _ => Replays.pure rfl

theorem Package.replays_ofNode (n : Node) :
    Replays T (fun x y => Package.map T.resolve? x = Package.map some y)
      (Package.ofNode ctx n : SessionM (Package Symbol))
      (Package.ofNode ctx n : Lowering (Package String)) := by
  induction n using Node.packageInduction with
  | h n ih =>
    rw [Package.ofNode, Package.ofNode]
    apply (replays_read (n.replays_ensure _)).bind
    intro _ _ _
    apply (replays_read n.replays_name).bind
    intro x y hname
    split
    · exact Replays.pure (by simp [Package.map, hname])
    · apply n.replays_skipHeader.bind
      intro _ _ _
      rw [declarationsOf_eq_mapM, declarationsOf_eq_mapM]
      have hitems := mapM fun c hc => DeclarativeItem.replays_lower ctx _ (ih c hc)
      refine (hitems.map fun xss yss h => ?_).bind
        (R := fun xs ys => xs.map (Declaration.map T.resolve?) = ys.map (Declaration.map some))
        fun xs ys h => Replays.pure ?_
      · rw [List.map_flatten, List.map_flatten, h]
      · simp [Package.map, hname, h]

namespace DesignFile

theorem replays_lowerPart (n : Node) :
    Replays T (fun xs ys => xs.map (Package.map T.resolve?) = ys.map (Package.map some))
      (lowerPart ctx n : SessionM (List (Package Symbol)))
      (lowerPart ctx n : Lowering (List (Package String))) := by
  unfold lowerPart
  split
  · exact (Node.replays_forM_skipAs _ _).bind fun _ _ _ => Replays.pure rfl
  · exact (n.replays_skipAs _).bind fun _ _ _ => Replays.pure rfl
  · exact (n.replays_skipAs _).bind fun _ _ _ => Replays.pure rfl
  · exact (n.replays_skipAs _).bind fun _ _ _ => Replays.pure rfl
  · split
    · exact (Package.replays_ofNode ctx _).bind fun x y h => Replays.pure (by simp [h])
    · exact (n.libraryUnit.replays_skipAs _).bind fun _ _ _ => Replays.pure rfl

theorem replays_lower (root : Node) :
    Replays T (fun xs ys => xs.map (Package.map T.resolve?) = ys.map (Package.map some))
      (lower ctx root : SessionM (List (Package Symbol)))
      (lower ctx root : Lowering (List (Package String))) := by
  apply (replays_read (root.replays_ensure _)).bind
  intro _ _ _
  apply (mapM fun c _ => replays_lowerPart ctx c).bind
  intro xss yss h
  apply Replays.pure
  simp [List.map_flatten, h]

end DesignFile

theorem Target.replays_lower (target : Target) (n : Node) :
    Replays T (fun x y => x.map T.resolve? = y.map some)
      (target.lower ctx n : SessionM (Product Symbol))
      (target.lower ctx n : Lowering (Product String)) := by
  cases target with
  | package =>
    exact (Package.replays_ofNode ctx n).map fun x y h => congrArg Product.package h
  | component =>
    exact (Component.replays_ofNode ctx n).map fun x y h => congrArg Product.component h
  | designFile =>
    exact (DesignFile.replays_lower ctx n).map fun x y h => congrArg Product.packages h

end Scopes

end VhdlLowering
