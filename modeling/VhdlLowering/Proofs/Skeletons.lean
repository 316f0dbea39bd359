import VhdlLowering.Proofs.Accounting

/-!
# Lowering the hierarchy only

If only the hierarchy is wanted, a tree gives the skeleton of what it gives in full. The log keeps
the parts of the design file that were skipped and loses what was skipped inside packages, and no
name is met that is not met in full.
-/

namespace VhdlLowering

section Skeletons

variable {ν : Type}

def Package.skeleton (p : Package ν) : Package ν := { p with declarations := [] }

def Component.skeleton (c : Component ν) : Component ν := { c with generics := [], ports := [] }

def Product.skeleton : Product ν → Product ν
  | package p => package (Package.skeleton p)
  | component c => component c.skeleton
  | packages ps => packages (ps.map Package.skeleton)

end Skeletons

/-- Labels of the parts of a design file that are skipped. -/
def isDesignFileLabel (label : String) : Bool :=
  label = "DesignFileParser.visitLibrary_unit" || label = "DesignFileParser.visitContext_item"

namespace Log

/-- The entries for parts of design files. -/
def ofDesignFile (log : Log) : Log := log.filter fun e => isDesignFileLabel e.label

theorem ofDesignFile_append (l l' : Log) :
    ofDesignFile (l ++ l') = ofDesignFile l ++ ofDesignFile l' :=
  List.filter_append l l'

theorem ofDesignFile_map_ofNode {label : String} (ns : List Node) :
    ofDesignFile (ns.map (Skipped.ofNode label)) =
      if isDesignFileLabel label then ns.map (Skipped.ofNode label) else [] := by
  rw [ofDesignFile, List.filter_map]
  cases h : isDesignFileLabel label <;> simp [Skipped.ofNode, Function.comp_def, h]

end Log

namespace Lowering

variable {α β γ δ : Type}

/-- Whatever `x` gives, `y` gives its image, logs the entries for parts of design files only, and
meets no further names. -/
def Projects (f : α → β) (x : Lowering α) (y : Lowering β) : Prop :=
  ∀ a log, x.Yields a log → y.Yields (f a) log.ofDesignFile ∧ y.names ⊆ x.names

theorem projects_pure {f : α → β} {a : α} {b : β} (h : b = f a) :
    Projects f (pure a) (pure b) := by
  intro a' log ha
  obtain ⟨rfl, rfl⟩ := yields_pure.mp ha
  exact ⟨yields_pure.mpr ⟨h.symm, rfl⟩, List.nil_subset _⟩

theorem projects_read (x : Naming α) : Projects id (read x) (read x) := by
  intro a log ha
  obtain ⟨hresult, rfl⟩ := yields_read.mp ha
  exact ⟨yields_read.mpr ⟨hresult, rfl⟩, List.Subset.refl _⟩

theorem projects_forM_skipAs {label : String} (ns : List Node)
    (h : isDesignFileLabel label = true) :
    Projects id (ns.forM (Node.skipAs label)) (ns.forM (Node.skipAs label)) := by
  intro u log hu
  rw [yields_forM_skipAs.mp hu, Log.ofDesignFile_map_ofNode, if_pos h]
  exact ⟨yields_forM_skipAs.mpr rfl, List.Subset.refl _⟩

theorem projects_skipAs {label : String} (n : Node) (h : isDesignFileLabel label = true) :
    Projects id (n.skipAs label : Lowering Unit) (n.skipAs label) := by
  intro u log hu
  have hentry : Log.ofDesignFile [.ofNode label n] = [.ofNode label n] :=
    (Log.ofDesignFile_map_ofNode [n]).trans (if_pos h)
  rw [yields_skipAs.mp hu, hentry]
  exact ⟨yields_skipAs.mpr rfl, List.Subset.refl _⟩

theorem Projects.bind {f : α → β} {g : γ → δ} {x : Lowering α} {y : Lowering β}
    {p : α → Lowering γ} {q : β → Lowering δ} (hx : Projects f x y)
    (h : ∀ a, Projects g (p a) (q (f a))) : Projects g (x >>= p) (y >>= q) := by
  intro c log hc
  obtain ⟨a, l, l', ha, hp, rfl⟩ := yields_bind.mp hc
  obtain ⟨hy, hnames⟩ := hx a l ha
  obtain ⟨hq, hnames'⟩ := h a c l' hp
  rw [Log.ofDesignFile_append, names_bind_of_ok _ hy.result, names_bind_of_ok _ ha.result]
  refine ⟨yields_bind.mpr ⟨f a, _, _, hy, hq, rfl⟩, List.append_subset.mpr ⟨?_, ?_⟩⟩
  · exact List.subset_append_of_subset_left _ hnames
  · exact List.subset_append_of_subset_right _ hnames'

theorem Projects.map {f : α → β} {x : Lowering α} {y : Lowering β} {p : α → γ} {q : β → δ}
    {g : γ → δ} (hx : Projects f x y) (h : ∀ a, q (f a) = g (p a)) :
    Projects g (p <$> x) (q <$> y) := by
  rw [map_eq_pure_bind, map_eq_pure_bind]
  exact hx.bind fun a => projects_pure (h a)

theorem projects_mapM {f : α → β} {p : γ → Lowering α} {q : γ → Lowering β}
    (h : ∀ c, Projects f (p c) (q c)) (cs : List γ) :
    Projects (List.map f) (cs.mapM p) (cs.mapM q) := by
  induction cs with
  | nil => exact projects_pure rfl
  | cons c cs ih =>
    rw [List.mapM_cons, List.mapM_cons]
    exact (h c).bind fun a => ih.bind fun as => projects_pure rfl

theorem names_bind_subset {x : Lowering α} {a : α} {p : α → Lowering β} {q : α → Lowering γ}
    (ha : x.result = .ok a) (h : (q a).names ⊆ (p a).names) :
    names (x >>= q) ⊆ names (x >>= p) := by
  rw [names_bind_of_ok q ha, names_bind_of_ok p ha]
  exact List.append_subset.mpr ⟨List.subset_append_left _ _,
    List.subset_append_of_subset_right _ h⟩

end Lowering

section Reports

/-- Components log nothing that belongs to a design file. -/
theorem Node.ofDesignFile_componentReports (n : Node) : n.componentReports.ofDesignFile = [] := by
  rw [componentReports, Log.ofDesignFile_map_ofNode]
  rfl

theorem Node.ofDesignFile_headerReports (n : Node) : n.headerReports.ofDesignFile = [] := by
  rw [headerReports]
  cases n.child? (.rule .packageHeader) with
  | none => rfl
  | some header =>
    simp only [Log.ofDesignFile_append]
    cases header.child? (.rule .genericClause) <;> cases header.child? (.rule .genericMapAspect) <;>
      rfl

theorem Unsupported.not_isDesignFileLabel (u : Unsupported) :
    isDesignFileLabel u.label = false := by
  cases u <;> decide

theorem Node.ofDesignFile_packageReports (n : Node) : n.packageReports.ofDesignFile = [] := by
  induction n using packageInduction with
  | h n ih =>
    rw [packageReports_eq, Log.ofDesignFile_append, ofDesignFile_headerReports, List.nil_append]
    refine List.filter_eq_nil_iff.mpr fun e he => ?_
    obtain ⟨c, hc, he⟩ := List.mem_flatMap.mp he
    have hpackage := List.filter_eq_nil_iff.mp (ih c hc)
    rw [DeclarativeItem.reports] at he
    split at he
    · exact hpackage e he
    · exact List.filter_eq_nil_iff.mp (ofDesignFile_componentReports _) e he
    · rename_i u _
      rw [List.mem_singleton.mp he]
      simp [Skipped.ofNode, u.not_isDesignFileLabel]
    all_goals cases he

end Reports

section Projections

open Lowering

variable (file : FileId) (n : Node)

theorem Component.projects_ofNode :
    Projects Component.skeleton (Component.ofNode ⟨file, false⟩ n)
      (Component.ofNode ⟨file, true⟩ n) := by
  intro c log h
  obtain ⟨hkind, hname, hspan, rfl⟩ := yields_ofNode h
  have hensure := Node.result_ensure_eq_ok (u := ()).mpr hkind
  rw [n.ofDesignFile_componentReports]
  constructor
  · refine yields_bind.mpr ⟨(), [], [], yields_read.mpr ⟨hensure, rfl⟩, ?_, rfl⟩
    refine yields_bind.mpr ⟨c.name, [], [], yields_read.mpr ⟨hname, rfl⟩, ?_, rfl⟩
    exact yields_pure.mpr ⟨by rw [skeleton, hspan], rfl⟩
  · exact names_bind_subset hensure (names_bind_subset hname (List.nil_subset _))

theorem Package.projects_ofNode :
    Projects Package.skeleton (Package.ofNode ⟨file, false⟩ n) (Package.ofNode ⟨file, true⟩ n) := by
  -- Both runs read the kind and the name; all that the full run logs is inside the package.
  intro p log h
  obtain ⟨hkind, hname, honly, hspan, -⟩ := yields_ofNode.mp h
  obtain ⟨-, rfl⟩ := accounted_of_yields n h
  have hensure := Node.result_ensure_eq_ok (u := ()).mpr hkind
  rw [n.ofDesignFile_packageReports, ofNode, ofNode]
  constructor
  · refine yields_bind.mpr ⟨(), [], [], yields_read.mpr ⟨hensure, rfl⟩, ?_, rfl⟩
    refine yields_bind.mpr ⟨p.name, [], [], yields_read.mpr ⟨hname, rfl⟩, ?_, rfl⟩
    exact yields_pure.mpr ⟨by rw [skeleton, honly, hspan], rfl⟩
  · exact names_bind_subset hensure (names_bind_subset hname (List.nil_subset _))

/-- Context items and library units are skipped in either mode. -/
theorem DesignFile.projects_lowerPart :
    Projects (List.map Package.skeleton) (DesignFile.lowerPart ⟨file, false⟩ n)
      (DesignFile.lowerPart ⟨file, true⟩ n) := by
  unfold lowerPart
  split
  · exact (projects_forM_skipAs n.phrases rfl).bind fun _ => projects_pure rfl
  · exact (projects_skipAs n rfl).bind fun _ => projects_pure rfl
  · exact (projects_skipAs n rfl).bind fun _ => projects_pure rfl
  · exact (projects_skipAs n rfl).bind fun _ => projects_pure rfl
  · split
    · exact (Package.projects_ofNode file n.libraryUnit).bind fun p => projects_pure rfl
    · exact (projects_skipAs n.libraryUnit rfl).bind fun _ => projects_pure rfl

theorem DesignFile.projects_lower :
    Projects (List.map Package.skeleton) (DesignFile.lower ⟨file, false⟩ n)
      (DesignFile.lower ⟨file, true⟩ n) := by
  refine (projects_read _).bind fun _ => ?_
  refine (projects_mapM (projects_lowerPart file) n.unitParts).bind fun pss => ?_
  exact projects_pure (List.map_flatten ..).symm

/-- Every tree is projected to its skeleton. -/
theorem Target.projects_lower (target : Target) :
    Projects Product.skeleton (target.lower ⟨file, false⟩ n) (target.lower ⟨file, true⟩ n) := by
  cases target with
  | package => exact (Package.projects_ofNode file n).map fun p => rfl
  | component => exact (Component.projects_ofNode file n).map fun c => rfl
  | designFile => exact (DesignFile.projects_lower file n).map fun ps => rfl

/-- A package or a component by itself logs nothing that belongs to a design file. -/
theorem Target.ofDesignFile_eq_nil {target : Target} {p : Product String} {log : Log}
    (hp : Yields (target.lower ⟨file, false⟩ n) p log) :
    target = .designFile ∨ log.ofDesignFile = [] := by
  cases target with
  | package =>
    obtain ⟨q, hq, -⟩ := yields_map.mp hp
    obtain ⟨-, rfl⟩ := Package.accounted_of_yields n hq
    exact .inr n.ofDesignFile_packageReports
  | component =>
    obtain ⟨c, hc, -⟩ := yields_map.mp hp
    obtain ⟨-, -, -, rfl⟩ := Component.yields_ofNode hc
    exact .inr n.ofDesignFile_componentReports
  | designFile => exact .inl rfl

end Projections

namespace Session

theorem step_lower_ne_none (s : Session) (target : Target) (ctx : Context) (n : Node) :
    (s.step (.lower target ctx n)).1 ≠ .ok none := by
  rw [step]
  split <;> simp

/-- A tree that is lowered in full can also be lowered to its skeleton, with the same names and
positions. Of the log the entries for parts of the design file remain, and no further names are
interned. A tree without a skeleton is not lowered in full either. -/
theorem hierarchy_projects (s : Session) (target : Target) (file : FileId) (n : Node) :
    let full := s.step (.lower target ⟨file, false⟩ n)
    let hierarchy := s.step (.lower target ⟨file, true⟩ n)
    (∀ p, full.1 = .ok (some p) →
      ∃ (q : Product Symbol) (tree : Product String) (entries : Log),
        hierarchy.1 = .ok (some q) ∧
        p.map full.2.names.resolve? = tree.map some ∧
        q.map hierarchy.2.names.resolve? = tree.skeleton.map some ∧
        full.2.log = s.log ++ entries ∧
        hierarchy.2.log = s.log ++ entries.ofDesignFile ∧
        (target = .designFile ∨ entries.ofDesignFile = []) ∧
        hierarchy.2.names.names ⊆ full.2.names.names) ∧
    ∀ d, hierarchy.1 = .error d → ∃ d', full.1 = .error d' := by
  intro full hierarchy
  constructor
  · intro p hp
    obtain ⟨tree, htree, hnames⟩ := result_of_step hp
    obtain ⟨hskeleton, hsubset⟩ := Target.projects_lower file n target tree _ ⟨htree, rfl⟩
    obtain ⟨q, hq⟩ := step_succeeds_iff (s := s).mpr ⟨tree.skeleton, hskeleton.result⟩
    obtain ⟨tree', htree', hnames'⟩ := result_of_step hq
    cases htree'.symm.trans hskeleton.result
    refine ⟨q, tree, _, hq, hnames, hnames', s.log_step _, ?_, ?_, ?_⟩
    · exact (s.log_step _).trans (congrArg _ hskeleton.skips)
    · exact Target.ofDesignFile_eq_nil file n ⟨htree, rfl⟩
    · intro name hname
      rw [names_step, NameTable.mem_names_internAll] at hname ⊢
      exact hname.imp_right fun h => hsubset h
  · -- A full run that succeeds would have a skeleton.
    intro d hd
    match hfull : full.1 with
    | .error d' => exact ⟨d', rfl⟩
    | .ok none => exact absurd hfull (s.step_lower_ne_none _ _ _)
    | .ok (some p) =>
      obtain ⟨tree, htree, -⟩ := result_of_step hfull
      obtain ⟨hskeleton, -⟩ := Target.projects_lower file n target tree _ ⟨htree, rfl⟩
      obtain ⟨q, hq⟩ := step_succeeds_iff (s := s).mpr ⟨tree.skeleton, hskeleton.result⟩
      cases hq.symm.trans hd

/-- A library clause and a package with an alias in front of an entity. -/
def mixedFile : Node :=
  let inner : Node := .branch (.rule .packageDeclaration) ⟨2, 6⟩
    [.leaf (.rule .identifier) ⟨2, 3⟩ "p", .branch (.rule .packageDeclarativePart) ⟨3, 5⟩
      [.leaf (.rule .aliasDeclaration) ⟨3, 4⟩ "alias"]]
  .branch (.rule .designFile) ⟨0, 9⟩
    [.leaf (.rule .libraryClause) ⟨0, 2⟩ "library", inner,
      .leaf (.other "entity_declaration") ⟨6, 9⟩ "entity"]

/-- A file with a package that has no name. -/
def namelessFile : Node :=
  .branch (.rule .designFile) ⟨0, 2⟩ [.leaf (.rule .packageDeclaration) ⟨0, 2⟩ "package"]

theorem mixedFile_projects :
    (∃ p, (start.step (.lower .designFile ⟨⟨0⟩, false⟩ mixedFile)).1 = .ok (some p) ∧
      ∃ (q : Product Symbol) (tree : Product String) (entries : Log),
        (start.step (.lower .designFile ⟨⟨0⟩, true⟩ mixedFile)).1 = .ok (some q) ∧
        p.map (start.step (.lower .designFile ⟨⟨0⟩, false⟩ mixedFile)).2.names.resolve? =
          tree.map some ∧
        q.map (start.step (.lower .designFile ⟨⟨0⟩, true⟩ mixedFile)).2.names.resolve? =
          tree.skeleton.map some ∧
        (start.step (.lower .designFile ⟨⟨0⟩, false⟩ mixedFile)).2.log = start.log ++ entries ∧
        (start.step (.lower .designFile ⟨⟨0⟩, true⟩ mixedFile)).2.log =
          start.log ++ entries.ofDesignFile) ∧
    ∃ d, (start.step (.lower .designFile ⟨⟨0⟩, true⟩ namelessFile)).1 = .error d ∧
      ∃ d', (start.step (.lower .designFile ⟨⟨0⟩, false⟩ namelessFile)).1 = .error d' := by
  constructor
  · obtain ⟨p, hp⟩ : ∃ p,
        (start.step (.lower .designFile ⟨⟨0⟩, false⟩ mixedFile)).1 = .ok (some p) :=
      step_succeeds_iff.mpr (by decide +kernel)
    obtain ⟨q, tree, entries, hq, hnames, hnames', hlog, hlog', -⟩ :=
      (hierarchy_projects start .designFile ⟨0⟩ mixedFile).1 p hp
    exact ⟨p, hp, q, tree, entries, hq, hnames, hnames', hlog, hlog'⟩
  · have hd : (start.step (.lower .designFile ⟨⟨0⟩, true⟩ namelessFile)).1 =
        .error (.missing (.rule .packageDeclaration) .identifier ⟨0, 2⟩) := by decide +kernel
    exact ⟨_, hd, (hierarchy_projects start .designFile ⟨0⟩ namelessFile).2 _ hd⟩

end Session

end VhdlLowering
