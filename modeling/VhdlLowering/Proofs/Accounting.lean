import VhdlLowering.Proofs.PackageWalk
import VhdlLowering.Proofs.Steps

/-!
# What becomes of the items of a package

Each item of a package, a token included, is either declared or reported. What lowering a package
logs can be read off the tree: first the parts of its header, then the items one after the other,
where an item that is a package reports in its turn.
-/

namespace VhdlLowering

/-- The log of a component: what its clauses hand back, generics first. -/
def Node.componentReports (n : Node) : Log :=
  (InterfaceList.othersOf .genericClause n ++ InterfaceList.othersOf .portClause n).map
    (Skipped.ofNode "InterfaceParser.visitInterface_declaration")

mutual

/-- The log of an item. -/
def DeclarativeItem.reports (item : DeclarativeItem) : Log :=
  match item.role with
  | .package => item.node.packageReports
  | .component => item.node.componentReports
  | .unsupported u => [.ofNode u.label item.node]
  | .subprogram | .type | .subtype | .constant | .signal | .variable => []
termination_by 2 * item.node.size + 1

/-- The log of a package. -/
def Node.packageReports (n : Node) : Log :=
  n.headerReports ++
    n.packageItems.attach.flatMap fun c => (DeclarativeItem.classify c.val).reports
termination_by 2 * n.size
decreasing_by
  have hitem := DeclarativeItem.size_classify_le c.val
  have hsum := Node.size_le_sizes_of_mem c.property
  have hpart := n.sizes_packageItems_lt
  omega

end

theorem Node.packageReports_eq (n : Node) :
    n.packageReports =
      n.headerReports ++ n.packageItems.flatMap fun c => (DeclarativeItem.classify c).reports := by
  rw [packageReports]
  simp

/-- The objects of a declaration: one for each of its identifiers, in order. -/
structure Object.DeclaredBy (file : FileId) (kind : ObjectKind) (n : Node)
    (os : List (Object String)) : Prop where
  nonempty : os ≠ []
  names : os.map Object.name = n.identifiers.map Node.sourceText
  kinds : ∀ o ∈ os, o.kind = kind
  spans : ∀ o ∈ os, o.span = n.fileSpan file

mutual

/-- The declarations of a scope are those of its items, one block for each item. -/
inductive Package.Accounted (file : FileId) : Node → Package String → Prop
  | intro {n : Node} {p : Package String} (blocks : List (List (Declaration String)))
      (hspan : p.span = n.fileSpan file)
      (hitems : List.Forall₂
        (fun c block => DeclarativeItem.Accounted file (DeclarativeItem.classify c) block)
        n.packageItems blocks)
      (hdeclarations : p.declarations = blocks.flatten) : Package.Accounted file n p

/-- The declarations of an item: some if it is supported, and none if it is not. -/
inductive DeclarativeItem.Accounted (file : FileId) :
    DeclarativeItem → List (Declaration String) → Prop
  | subprogram {n : Node} {d : Subprogram String} (hspan : d.span = n.fileSpan file) :
      DeclarativeItem.Accounted file ⟨.subprogram, n⟩ [.subprogram d]
  | package {n : Node} {p : Package String} (hp : Package.Accounted file n p) :
      DeclarativeItem.Accounted file ⟨.package, n⟩ [.package p]
  | type {n : Node} {d : TypeDecl String} (hspan : d.span = n.fileSpan file) :
      DeclarativeItem.Accounted file ⟨.type, n⟩ [.type d]
  | subtype {n : Node} {d : SubtypeDecl String} (hspan : d.span = n.fileSpan file) :
      DeclarativeItem.Accounted file ⟨.subtype, n⟩ [.subtype d]
  | constant {n : Node} {os : List (Object String)} (hos : Object.DeclaredBy file .constant n os) :
      DeclarativeItem.Accounted file ⟨.constant, n⟩ (os.map .constant)
  | signal {n : Node} {os : List (Object String)} (hos : Object.DeclaredBy file .signal n os) :
      DeclarativeItem.Accounted file ⟨.signal, n⟩ (os.map .signal)
  | variable {n : Node} {os : List (Object String)} (hos : Object.DeclaredBy file .variable n os) :
      DeclarativeItem.Accounted file ⟨.variable, n⟩ (os.map .variable)
  | component {n : Node} {c : Component String} (hspan : c.span = n.fileSpan file) :
      DeclarativeItem.Accounted file ⟨.component, n⟩ [.component c]
  | unsupported {u : Unsupported} {n : Node} :
      DeclarativeItem.Accounted file ⟨.unsupported u, n⟩ []

end

section Readers

variable {file : FileId} {n : Node}

theorem Subprogram.span_of_result {d : Subprogram String}
    (h : (Subprogram.ofNode file n : Naming (Subprogram String)).result = .ok d) :
    d.span = n.fileSpan file := by
  simp only [ofNode, Traced.result_bind_eq_ok] at h
  obtain ⟨_, -, _, -, _, -, _, -, _, -, hd⟩ := h
  cases hd
  rfl

theorem TypeDecl.span_of_result {d : TypeDecl String}
    (h : (TypeDecl.ofNode file n : Naming (TypeDecl String)).result = .ok d) :
    d.span = n.fileSpan file := by
  simp only [ofNode, Traced.result_bind_eq_ok] at h
  obtain ⟨_, -, _, -, hd⟩ := h
  cases hd
  rfl

theorem SubtypeDecl.span_of_result {d : SubtypeDecl String}
    (h : (SubtypeDecl.ofNode file n : Naming (SubtypeDecl String)).result = .ok d) :
    d.span = n.fileSpan file := by
  simp only [ofNode, Traced.result_bind_eq_ok] at h
  obtain ⟨_, -, _, -, hd⟩ := h
  cases hd
  rfl

theorem Object.declaredBy_of_result {kind : ObjectKind} {os : List (Object String)}
    (h : (Object.ofNode file kind n : Naming (List (Object String))).result = .ok os) :
    DeclaredBy file kind n os := by
  obtain ⟨hne, hnames⟩ := names_of_result h
  simp only [ofNode, Traced.result_bind_eq_ok] at h
  obtain ⟨_, -, _, -, hos⟩ := h
  cases hos
  refine ⟨hne, hnames, ?_, ?_⟩
  all_goals
    intro o ho
    obtain ⟨_, -, rfl⟩ := List.mem_map.mp ho
    rfl

theorem Component.yields_ofNode {c : Component String} {log : Log}
    (h : (Component.ofNode ⟨file, false⟩ n : Lowering (Component String)).Yields c log) :
    n.kind = .rule .componentDeclaration ∧ (n.name : Naming String).result = .ok c.name ∧
      c.span = n.fileSpan file ∧ log = n.componentReports := by
  simp only [ofNode, Bool.false_eq_true, if_false, Lowering.yields_bind, Lowering.yields_read,
    Node.result_ensure_eq_ok, Lowering.yields_forM_skipAs, Lowering.yields_pure] at h
  obtain ⟨_, _, _, ⟨hkind, rfl⟩, ⟨name, _, _, ⟨hname, rfl⟩, ⟨generics, _, _, ⟨hgenerics, rfl⟩,
    ⟨ports, _, _, ⟨hports, rfl⟩, ⟨_, _, _, rfl, ⟨rfl, rfl⟩, rfl⟩, rfl⟩, rfl⟩, rfl⟩, rfl⟩ := h
  rw [InterfaceList.others_of_ofChild hgenerics, InterfaceList.others_of_ofChild hports]
  exact ⟨hkind, hname, rfl, by simp [Node.componentReports]⟩

end Readers

section Packages

variable {file : FileId}

theorem DeclarativeItem.accounted_of_yields {item : DeclarativeItem}
    {ds : List (Declaration String)} {log : Log}
    (hpackage : ∀ p log, (Package.ofNode ⟨file, false⟩ item.node : Lowering _).Yields p log →
      Package.Accounted file item.node p ∧ log = item.node.packageReports)
    (h : (item.lower ⟨file, false⟩ : Lowering _).Yields ds log) :
    item.Accounted file ds ∧ log = item.reports := by
  obtain ⟨role, n⟩ := item
  rw [DeclarativeItem.reports]
  cases role with
  | package =>
    simp only [lower, Lowering.yields_bind, Lowering.yields_pure] at h
    obtain ⟨p, _, _, hp, ⟨rfl, rfl⟩, rfl⟩ := h
    obtain ⟨haccounted, rfl⟩ := hpackage p _ hp
    exact ⟨.package haccounted, List.append_nil _⟩
  | component =>
    simp only [lower, Lowering.yields_bind, Lowering.yields_pure] at h
    obtain ⟨c, _, _, hc, ⟨rfl, rfl⟩, rfl⟩ := h
    obtain ⟨-, -, hspan, rfl⟩ := Component.yields_ofNode hc
    exact ⟨.component hspan, List.append_nil _⟩
  | unsupported u =>
    simp only [lower, Lowering.yields_bind, Lowering.yields_skipAs, Lowering.yields_pure] at h
    obtain ⟨_, _, _, rfl, ⟨rfl, rfl⟩, rfl⟩ := h
    exact ⟨.unsupported, List.append_nil _⟩
  | subprogram =>
    rw [lower] at h
    obtain ⟨d, hd, rfl, rfl⟩ := Lowering.yields_read_bind_pure.mp h
    exact ⟨.subprogram (Subprogram.span_of_result hd), rfl⟩
  | type =>
    rw [lower] at h
    obtain ⟨d, hd, rfl, rfl⟩ := Lowering.yields_read_bind_pure.mp h
    exact ⟨.type (TypeDecl.span_of_result hd), rfl⟩
  | subtype =>
    rw [lower] at h
    obtain ⟨d, hd, rfl, rfl⟩ := Lowering.yields_read_bind_pure.mp h
    exact ⟨.subtype (SubtypeDecl.span_of_result hd), rfl⟩
  | constant =>
    rw [lower] at h
    obtain ⟨os, hos, rfl, rfl⟩ := Lowering.yields_read_bind_pure.mp h
    exact ⟨.constant (Object.declaredBy_of_result hos), rfl⟩
  | signal =>
    rw [lower] at h
    obtain ⟨os, hos, rfl, rfl⟩ := Lowering.yields_read_bind_pure.mp h
    exact ⟨.signal (Object.declaredBy_of_result hos), rfl⟩
  | «variable» =>
    rw [lower] at h
    obtain ⟨os, hos, rfl, rfl⟩ := Lowering.yields_read_bind_pure.mp h
    exact ⟨.variable (Object.declaredBy_of_result hos), rfl⟩

/-- Blocks found for the items one by one make up the blocks of a package. -/
theorem DeclarativeItem.accounted_blocks {cs : List Node}
    {parts : List (List (Declaration String) × Log)}
    (h : List.Forall₂ (fun c part => (classify c).Accounted file part.1 ∧
      part.2 = (classify c).reports) cs parts) :
    List.Forall₂ (fun c block => (classify c).Accounted file block) cs (parts.map Prod.fst) ∧
      (parts.map Prod.snd).flatten = cs.flatMap fun c => (classify c).reports := by
  induction h with
  | nil => exact ⟨.nil, rfl⟩
  | cons hpart _ ih => exact ⟨.cons hpart.1 ih.1, by simp [hpart.2, ih.2]⟩

theorem Package.accounted_of_yields (n : Node) {p : Package String} {log : Log}
    (h : (Package.ofNode ⟨file, false⟩ n : Lowering _).Yields p log) :
    Package.Accounted file n p ∧ log = n.packageReports := by
  induction n using Node.packageInduction generalizing p log with
  | h n ih =>
    -- The walk gives one part for each item; the induction accounts for the items one by one.
    obtain ⟨-, -, -, hspan, parts, hparts, hdeclarations, rfl⟩ := yields_ofNode.mp h
    have hitems : List.Forall₂ (fun c part => (DeclarativeItem.classify c).Accounted file part.1 ∧
        part.2 = (DeclarativeItem.classify c).reports) n.packageItems parts := by
      refine List.Forall₂.imp ?_ ((List.forall₂_and_left _ _).mpr ⟨ih, hparts⟩)
      rintro c part ⟨hc, hpart⟩
      exact DeclarativeItem.accounted_of_yields (fun p log => hc) hpart
    obtain ⟨hblocks, hlogs⟩ := DeclarativeItem.accounted_blocks hitems
    rw [n.packageReports_eq, hlogs]
    exact ⟨.intro _ hspan hblocks hdeclarations, rfl⟩

end Packages

namespace Session

/-- A package that is handed out accounts for each of its items, and so does every package inside it.
Its reports, and nothing else, are added to the log. -/
theorem package_accounted {s : Session} {file : FileId} {n : Node} {p : Product Symbol}
    (h : (s.step (.lower .package ⟨file, false⟩ n)).1 = .ok (some p)) :
    ∃ q : Package String,
      p.map (s.step (.lower .package ⟨file, false⟩ n)).2.names.resolve? =
        .package (Package.map some q) ∧
      Package.Accounted file n q ∧
      (s.step (.lower .package ⟨file, false⟩ n)).2.log = s.log ++ n.packageReports := by
  obtain ⟨product, hproduct, hnames⟩ := result_of_step h
  obtain ⟨q, hq, rfl⟩ := Lowering.yields_map.mp
    (show (Product.package <$> Package.ofNode ⟨file, false⟩ n : Lowering _).Yields product _ from
      ⟨hproduct, rfl⟩)
  obtain ⟨haccounted, hreports⟩ := Package.accounted_of_yields n hq
  refine ⟨q, hnames, haccounted, ?_⟩
  rw [log_step, ← hreports]
  rfl

/-- A package with a token, two constants, a component with a generic type and a package inside. -/
def mixedPackage : Node :=
  let ident (s : String) : Node := .leaf (.rule .identifier) ⟨0, 1⟩ s
  let bit : Node := .leaf (.rule .subtypeIndication) ⟨1, 2⟩ "bit"
  let constants : Node := .branch (.rule .constantDeclaration) ⟨2, 5⟩
    [.branch (.rule .identifierList) ⟨2, 3⟩ [ident "a", ident "b"], bit]
  let clause : Node := .branch (.rule .genericClause) ⟨6, 8⟩
    [.leaf (.rule .interfaceTypeDeclaration) ⟨6, 7⟩ "type t"]
  let component : Node := .branch (.rule .packageDeclarativeItem) ⟨5, 9⟩
    [.branch (.rule .componentDeclaration) ⟨5, 8⟩ [ident "c", clause]]
  let inner : Node := .branch (.rule .packageDeclaration) ⟨9, 12⟩
    [ident "a", .branch (.rule .packageHeader) ⟨9, 10⟩ [clause],
      .branch (.rule .packageDeclarativePart) ⟨10, 11⟩
        [.leaf (.rule .aliasDeclaration) ⟨10, 11⟩ "alias"]]
  .branch (.rule .packageDeclaration) ⟨0, 14⟩
    [ident "p", .branch (.rule .packageDeclarativePart) ⟨2, 13⟩
      [constants, .leaf (.other "SEMI") ⟨12, 13⟩ ";", component, inner]]

theorem mixedPackage_accounted :
    ∃ p, (start.step (.lower .package ⟨⟨0⟩, false⟩ mixedPackage)).1 = .ok (some p) ∧
      ∃ q : Package String,
        p.map (start.step (.lower .package ⟨⟨0⟩, false⟩ mixedPackage)).2.names.resolve? =
          .package (Package.map some q) ∧
        Package.Accounted ⟨0⟩ mixedPackage q ∧
        (start.step (.lower .package ⟨⟨0⟩, false⟩ mixedPackage)).2.log =
          start.log ++ mixedPackage.packageReports := by
  obtain ⟨p, hp⟩ : ∃ p, (start.step (.lower .package ⟨⟨0⟩, false⟩ mixedPackage)).1 = .ok (some p) :=
    step_succeeds_iff.mpr (by decide +kernel)
  exact ⟨p, hp, package_accounted hp⟩

example : mixedPackage.packageReports.map Skipped.span = [⟨12, 13⟩, ⟨6, 7⟩, ⟨6, 8⟩, ⟨10, 11⟩] := by
  decide +kernel

end Session

end VhdlLowering
