import VhdlLowering.Proofs.DesignFiles
import VhdlLowering.Syntax.Preorder

/-!
# Trees that read alike

Lowering looks at a tree in a few ways only: at kinds and positions, at the source text of nodes of
some kinds, at children by their kind, and at the items of the lists it walks through. A relation that
keeps all that is looked at is a likeness, and like trees are lowered alike: in every session they
give the same answer, the same entries of the log and the same names.
-/

namespace VhdlLowering

/-- A defect stops a reader. -/
class LawfulNaming (ν : outParam Type) (r : Type → Type) [MonadNaming ν r] : Prop
    extends LawfulMonad r where
  fail_bind {α β : Type} (d : Defect) (f : α → r β) :
    (MonadNaming.fail d >>= f) = MonadNaming.fail d

/-- Declarations are read step by step, and a defect of one stops the lowering. -/
class LawfulLowering (ν : outParam Type) (r : outParam (Type → Type)) (m : Type → Type)
    [MonadNaming ν r] [MonadLowering r m] : Prop extends LawfulMonad m where
  read_pure {α : Type} (a : α) : (read (pure a : r α) : m α) = pure a
  read_bind {α β : Type} (x : r α) (f : α → r β) :
    (read (x >>= f) : m β) = read x >>= fun a => read (f a)
  read_fail_bind {α β : Type} (d : Defect) (f : α → m β) :
    (read (MonadNaming.fail d : r α) >>= f) = read (MonadNaming.fail d : r β)

instance : LawfulNaming Symbol TableM where
  fail_bind _ _ := rfl

instance : LawfulLowering Symbol TableM SessionM where
  read_pure _ := rfl
  read_bind x f := by
    funext s
    change EStateM.run _ s = EStateM.run _ s
    rw [EStateM.run_bind]
    cases h : x.run s.names with
    | ok a t =>
      rw [SessionM.run_read_of_ok h]
      simp only [EStateM.run] at h
      simp only [EStateM.run, read, bind, EStateM.bind, h]
    | error d t =>
      rw [SessionM.run_read_of_error h]
      apply SessionM.run_read_of_error
      rw [EStateM.run_bind, h]
  read_fail_bind _ _ := rfl

/-- Steps that agree one by one agree as a whole. -/
theorem List.mapM_eq_of_forall₂ {α β γ : Type} {m : Type → Type} [Monad m] [LawfulMonad m]
    {f : α → m γ} {g : β → m γ} {as : List α} {bs : List β}
    (h : List.Forall₂ (fun a b => f a = g b) as bs) : as.mapM f = bs.mapM g := by
  induction h with
  | nil => rfl
  | cons hab _ ih => rw [List.mapM_cons, List.mapM_cons, hab, ih]

namespace Kind

/-- Nodes of these kinds are kept as they are written. -/
def isText : Kind → Bool
  | .rule .identifier | .rule .designator | .rule .mode | .rule .subtypeIndication
  | .rule .expression | .rule .typeMark | .rule .typeDefinition | .rule .enumerationLiteral => true
  | _ => false

/-- Nodes of these kinds only hold others, and they are walked through child by child. -/
def isGroup : Kind → Bool
  | .rule .designFile | .rule .designUnit | .rule .contextClause | .rule .libraryUnit
  | .rule .primaryUnit | .rule .secondaryUnit | .rule .packageHeader
  | .rule .packageDeclarativePart | .rule .packageDeclarativeItem | .rule .genericClause
  | .rule .portClause | .rule .formalParameterList | .rule .interfaceList
  | .rule .interfaceElement | .rule .interfaceDeclaration | .rule .interfaceObjectDeclaration =>
    true
  | _ => false

theorem isGroup_of_isInterfaceObject {k : Kind} (h : k.isInterfaceObject = true) :
    k.isGroup = false := by
  unfold isInterfaceObject at h
  split at h <;> first | rfl | cases h

/-- Clauses in which interface objects are declared. -/
def isClause : Kind → Bool
  | .rule .genericClause | .rule .portClause | .rule .formalParameterList => true
  | _ => false

end Kind

theorem Role.kind_of_type {k : Kind} (h : ofKind k = .type) : k = .rule .typeDeclaration := by
  match k with
  | .rule r => cases r <;> first | rfl | cases h
  | .other s => cases h

/-- The parts of a declaration of objects. -/
def Rule.objectParts : List Rule :=
  [.identifierList, .identifier, .mode, .subtypeIndication, .expression]

namespace Node

/-- All that a report or a defect tells of a node. -/
structure SameHead (m n : Node) : Prop where
  kind : m.kind = n.kind
  span : m.span = n.span

/-- Children of this kind are looked up in the node. -/
def LooksUp (n : Node) (r : Rule) : Prop :=
  n.kind.isGroup = false ∨ n.declaresInterface = true ∧ r ∈ Rule.objectParts

theorem child?_eq_head? (n : Node) (k : Kind) : n.child? k = (n.childrenOf k).head? :=
  List.head?_filter.symm

theorem rel_child?_of_childrenOf {R : Node → Node → Prop} {m n : Node} {k : Kind}
    (h : List.Forall₂ R (m.childrenOf k) (n.childrenOf k)) :
    Option.Rel R (m.child? k) (n.child? k) := by
  rw [child?_eq_head?, child?_eq_head?]
  generalize m.childrenOf k = cs, n.childrenOf k = ds at h
  cases h with
  | nil => exact .none
  | cons hcd _ => exact .some hcd

theorem kind_of_mem_childrenOf {n c : Node} {k : Kind} (h : c ∈ n.childrenOf k) : c.kind = k := by
  simpa using (List.mem_filter.mp h).2

theorem looksUp_of_kind {n : Node} {r s : Rule} (hk : n.kind = .rule s)
    (hs : Kind.isGroup (.rule s) = false) : n.LooksUp r :=
  .inl (hk ▸ hs)

namespace SameHead

variable {m n : Node} (h : m.SameHead n)
include h

theorem missingIn (r : Rule) : Defect.missingIn m r = Defect.missingIn n r := by
  rw [Defect.missingIn, Defect.missingIn, h.kind, h.span]

theorem unexpectedNode (r : Rule) : Defect.unexpectedNode m r = Defect.unexpectedNode n r := by
  rw [Defect.unexpectedNode, Defect.unexpectedNode, h.kind, h.span]

theorem fileSpan (file : FileId) : m.fileSpan file = n.fileSpan file := by
  rw [Node.fileSpan, Node.fileSpan, h.span]

theorem skipAs {r l : Type → Type} [MonadLowering r l] (label : String) :
    (m.skipAs label : l Unit) = n.skipAs label := by
  rw [Node.skipAs, Node.skipAs, Skipped.ofNode, Skipped.ofNode, h.kind, h.span]

theorem ensure {ν : Type} {r : Type → Type} [MonadNaming ν r] (rule : Rule) :
    (m.ensure rule : r Unit) = n.ensure rule := by
  rw [Node.ensure, Node.ensure, h.kind, h.unexpectedNode]

end SameHead

theorem forM_skipAs_eq_of_forall₂ {r l : Type → Type} [MonadLowering r l] {ms ns : List Node}
    (label : String) (h : List.Forall₂ SameHead ms ns) :
    (ms.forM (skipAs label) : l Unit) = ns.forM (skipAs label) := by
  induction h with
  | nil => rfl
  | cons hmn _ ih =>
    change (skipAs label _ >>= fun _ => List.forM _ (skipAs label)) = _
    rw [hmn.skipAs, ih]
    rfl

/-- The entries of a header are logged one by one. -/
theorem skipHeader_eq_forM {r l : Type → Type} [MonadLowering r l] [LawfulMonad l] (n : Node) :
    (n.skipHeader : l Unit) = n.headerReports.forM MonadLowering.skip := by
  rw [skipHeader, headerReports]
  cases n.child? (.rule .packageHeader) with
  | none => rfl
  | some header =>
    cases hg : header.child? (.rule .genericClause) <;>
      cases ha : header.child? (.rule .genericMapAspect) <;>
      simp [hg, ha, Option.forM, skipAs]

end Node

/-- Items of an interface clause. Of what is handed back unread only the head is told. -/
inductive InterfaceItem.Alike (R : Node → Node → Prop) : InterfaceItem → InterfaceItem → Prop
  | object {c d : Node} (h : R c d) (hobject : c.declaresInterface = true) :
      Alike R (.object c) (.object d)
  | other {c d : Node} (h : c.SameHead d) : Alike R (.other c) (.other d)

/-- Items of a package. Of an item that is not supported only the head is told. -/
structure DeclarativeItem.Alike (R : Node → Node → Prop) (i j : DeclarativeItem) : Prop where
  role : i.role = j.role
  head : i.node.SameHead j.node
  node : (∀ u, i.role ≠ .unsupported u) → R i.node j.node

/-- Parts of a design file. Only packages are looked into. -/
inductive DesignFile.PartAlike (R : Node → Node → Prop) : Node → Node → Prop
  | contextClause {p q : Node} (hp : p.kind = .rule .contextClause)
      (hq : q.kind = .rule .contextClause) (h : List.Forall₂ Node.SameHead p.phrases q.phrases) :
      PartAlike R p q
  | contextItem {p q : Node} (hkind : p.kind = .rule .contextItem ∨ p.kind = .rule .libraryClause ∨
      p.kind = .rule .useClause) (h : p.SameHead q) : PartAlike R p q
  | unit {p q : Node} (hp : p.kind.isContext = false) (hq : q.kind.isContext = false)
      (h : p.libraryUnit.SameHead q.libraryUnit)
      (hpackage : p.libraryUnit.kind = .rule .packageDeclaration → R p.libraryUnit q.libraryUnit) :
      PartAlike R p q

/-- A relation that keeps all that lowering looks at. -/
structure Likeness (R : Node → Node → Prop) : Prop where
  head {m n : Node} (h : R m n) : m.SameHead n
  text {m n : Node} (h : R m n) (hk : m.kind.isText = true) : m.sourceText = n.sourceText
  childrenOf {m n : Node} (h : R m n) {r : Rule} (hr : m.LooksUp r) :
    List.Forall₂ R (m.childrenOf (.rule r)) (n.childrenOf (.rule r))
  enumeration {m n : Node} (h : R m n)
    (hk : m.kind = .rule .typeDeclaration ∨ m.kind = .rule .fullTypeDeclaration) :
    Option.Rel R (m.findDescendant? (.rule .enumerationTypeDefinition))
      (n.findDescendant? (.rule .enumerationTypeDefinition))
  interfaceItems {m n : Node} (h : R m n) (hk : m.kind.isClause = true) :
    List.Forall₂ (InterfaceItem.Alike R) m.interfaceItems n.interfaceItems
  headerReports {m n : Node} (h : R m n) (hk : m.kind = .rule .packageDeclaration) :
    m.headerReports = n.headerReports
  packageItems {m n : Node} (h : R m n) (hk : m.kind = .rule .packageDeclaration) :
    List.Forall₂ (fun c d => DeclarativeItem.Alike R (.classify c) (.classify d))
      m.packageItems n.packageItems
  unitParts {m n : Node} (h : R m n) (hk : m.kind = .rule .designFile) :
    List.Forall₂ (DesignFile.PartAlike R) m.unitParts n.unitParts

namespace Likeness

variable {ν : Type} {r l : Type → Type} [MonadNaming ν r] [MonadLowering r l]
variable {R : Node → Node → Prop} (hR : Likeness R) {m n : Node} {file : FileId}
include hR

theorem child?_cases (h : R m n) {rule : Rule} (hr : m.LooksUp rule) :
    m.child? (.rule rule) = none ∧ n.child? (.rule rule) = none ∨
      ∃ c d, m.child? (.rule rule) = some c ∧ n.child? (.rule rule) = some d ∧ R c d := by
  generalize m.child? (.rule rule) = c, n.child? (.rule rule) = d,
    Node.rel_child?_of_childrenOf (hR.childrenOf h hr) = hchild
  cases hchild with
  | none => exact .inl ⟨rfl, rfl⟩
  | some hcd => exact .inr ⟨_, _, rfl, rfl, hcd⟩

theorem fragment (h : R m n) (hk : m.kind.isText = true) : m.fragment file = n.fragment file := by
  rw [Node.fragment, Node.fragment, hR.text h hk, (hR.head h).span]

theorem map_fragment (h : R m n) (rule : Rule) (hr : m.LooksUp rule)
    (hk : Kind.isText (.rule rule) = true) :
    (m.child? (.rule rule)).map (Node.fragment file) =
      (n.child? (.rule rule)).map (Node.fragment file) := by
  rcases hR.child?_cases h hr with ⟨hc, hd⟩ | ⟨c, d, hc, hd, hcd⟩
  · rw [hc, hd]
  · rw [hc, hd, Option.map_some, Option.map_some,
      hR.fragment hcd (Node.kind_of_child? hc ▸ hk)]

omit hR in
theorem nameBy (h : m.SameHead n) {c d : Node} (hcd : c.sourceText = d.sourceText) :
    (m.nameBy c : r ν) = n.nameBy d := by
  rw [Node.nameBy, Node.nameBy, hcd, h.missingIn]

variable [LawfulNaming ν r]

/-- A child that has to be there is put to the same use. -/
theorem bind_required {α : Type} (h : R m n) {rule : Rule} (hr : m.LooksUp rule)
    {f g : Node → r α} (hfg : ∀ c d, c.kind = .rule rule → R c d → f c = g d) :
    (m.required rule >>= f) = n.required rule >>= g := by
  rw [Node.required, Node.required, (hR.head h).missingIn]
  rcases hR.child?_cases h hr with ⟨hc, hd⟩ | ⟨c, d, hc, hd, hcd⟩
  · rw [hc, hd, require, LawfulNaming.fail_bind, LawfulNaming.fail_bind]
  · rw [hc, hd, require, require, pure_bind, pure_bind, hfg c d (Node.kind_of_child? hc) hcd]

theorem name (h : R m n) (hr : m.LooksUp .identifier) : (m.name : r ν) = n.name := by
  apply hR.bind_required h hr
  intro c d hc hcd
  exact nameBy (hR.head h) (hR.text hcd (hc ▸ rfl))

theorem identifiers (h : R m n) (hlist : m.LooksUp .identifierList) (hr : m.LooksUp .identifier) :
    List.Forall₂ R m.identifiers n.identifiers := by
  unfold Node.identifiers
  rcases hR.child?_cases h hlist with ⟨hc, hd⟩ | ⟨c, d, hc, hd, hcd⟩
  · rw [hc, hd]
    exact hR.childrenOf h hr
  · rw [hc, hd]
    exact hR.childrenOf hcd (Node.looksUp_of_kind (Node.kind_of_child? hc) rfl)

omit [LawfulNaming ν r] in
theorem texts {cs ds : List Node} (h : List.Forall₂ R cs ds)
    (hk : ∀ c ∈ cs, c.kind.isText = true) :
    List.Forall₂ (fun c d => c.sourceText = d.sourceText) cs ds := by
  induction h with
  | nil => exact .nil
  | cons hcd _ ih =>
    obtain ⟨hc, hcs⟩ := List.forall_mem_cons.mp hk
    exact .cons (hR.text hcd hc) (ih hcs)

theorem names (h : R m n) (hlist : m.LooksUp .identifierList) (hr : m.LooksUp .identifier) :
    (m.names : r (List ν)) = n.names := by
  have htexts := hR.texts (hR.identifiers h hlist hr) fun c hc =>
    Node.kind_of_mem_childrenOf hc ▸ rfl
  have hidents : (m.identifiers.mapM m.nameBy : r (List ν)) = n.identifiers.mapM n.nameBy :=
    List.mapM_eq_of_forall₂ (htexts.imp fun c d hcd => nameBy (hR.head h) hcd)
  rw [Node.names, Node.names, hidents, (hR.head h).kind, (hR.head h).span]

/-- Objects of a package. -/
theorem objects (h : R m n) (hk : m.kind.isGroup = false) (kind : ObjectKind) :
    (Object.ofNode file kind m : r (List (Object ν))) = Object.ofNode file kind n := by
  rw [Object.ofNode, Object.ofNode, hR.names h (.inl hk) (.inl hk),
    hR.map_fragment h .expression (.inl hk) rfl, (hR.head h).fileSpan]
  refine bind_congr fun names => hR.bind_required h (.inl hk) fun c d hc hcd => ?_
  rw [hR.fragment hcd (hc ▸ rfl)]

omit [LawfulNaming ν r] in
theorem direction (h : R m n) (hr : m.LooksUp .mode) (kind : ObjectKind) :
    (m.direction kind : r (Option Direction)) = n.direction kind := by
  unfold Node.direction
  rcases hR.child?_cases h hr with ⟨hc, hd⟩ | ⟨c, d, hc, hd, hcd⟩
  · rw [hc, hd]
  · rw [hc, hd]
    simp only [hR.text hcd (Node.kind_of_child? hc ▸ rfl), (hR.head hcd).span]

theorem interfaceObjects (h : R m n) (hobject : m.declaresInterface = true) (kind : ObjectKind) :
    (m.interfaceObjects file kind : r (List (Object ν))) = n.interfaceObjects file kind := by
  have hr (rule : Rule) (hmem : rule ∈ Rule.objectParts) : m.LooksUp rule := .inr ⟨hobject, hmem⟩
  rw [Node.interfaceObjects, Node.interfaceObjects,
    hR.names h (hr _ (by decide)) (hr _ (by decide)), hR.direction h (hr _ (by decide)),
    hR.map_fragment h .expression (hr _ (by decide)) rfl, (hR.head h).fileSpan]
  refine bind_congr fun names => bind_congr fun direction => ?_
  refine hR.bind_required h (hr _ (by decide)) fun c d hc hcd => ?_
  rw [hR.fragment hcd (hc ▸ rfl)]

omit hR [LawfulNaming ν r] in
theorem others {items items' : List InterfaceItem}
    (h : List.Forall₂ (InterfaceItem.Alike R) items items') :
    List.Forall₂ Node.SameHead (items.filterMap InterfaceItem.other?)
      (items'.filterMap InterfaceItem.other?) := by
  induction h with
  | nil => exact .nil
  | cons hitem _ ih =>
    cases hitem with
    | object => exact ih
    | other h => exact .cons h ih

/-- Like clauses give the same objects and hand back nodes that are told alike. -/
theorem interfaceList (file : FileId) (kind : ObjectKind) (h : R m n)
    (hk : m.kind.isClause = true) :
    ∃ (x : r (List (Object ν))) (ms ns : List Node), List.Forall₂ Node.SameHead ms ns ∧
      InterfaceList.ofNode file kind m = (fun os => InterfaceList.mk os ms) <$> x ∧
      InterfaceList.ofNode file kind n = (fun os => InterfaceList.mk os ns) <$> x := by
  have hitems := hR.interfaceItems h hk
  have hobjects : (m.interfaceItems.mapM (InterfaceList.itemObjects file kind) :
      r (List (List (Object ν)))) = n.interfaceItems.mapM (InterfaceList.itemObjects file kind) := by
    refine List.mapM_eq_of_forall₂ (hitems.imp fun i j hij => ?_)
    cases hij with
    | object hcd hobject => exact hR.interfaceObjects hcd hobject kind
    | other => rfl
  refine ⟨List.flatten <$> n.interfaceItems.mapM (InterfaceList.itemObjects file kind), _, _,
    others hitems, ?_, ?_⟩
  · rw [InterfaceList.ofNode, hobjects, ← map_eq_pure_bind, Functor.map_map]
  · rw [InterfaceList.ofNode, ← map_eq_pure_bind, Functor.map_map]

theorem bind_subprogramParts {α : Type} (h : R m n)
    (hk : m.kind = .rule .subprogramSpecification) {f g : SubprogramKind × Node → r α}
    (hfg : ∀ kind c d, c.kind.isGroup = false → R c d → f (kind, c) = g (kind, d)) :
    (m.subprogramParts >>= f) = n.subprogramParts >>= g := by
  rw [Node.subprogramParts, Node.subprogramParts, (hR.head h).missingIn]
  rcases hR.child?_cases h (.inl (hk ▸ rfl)) with ⟨hc, hd⟩ | ⟨c, d, hc, hd, hcd⟩
  · rw [hc, hd]
    rcases hR.child?_cases h (.inl (hk ▸ rfl)) with ⟨hc, hd⟩ | ⟨c, d, hc, hd, hcd⟩
    · rw [hc, hd]
      simp only [LawfulNaming.fail_bind]
    · rw [hc, hd]
      simp only [pure_bind]
      exact hfg _ c d (Node.kind_of_child? hc ▸ rfl) hcd
  · rw [hc, hd]
    simp only [pure_bind]
    exact hfg _ c d (Node.kind_of_child? hc ▸ rfl) hcd

theorem designator (h : R m n) (hk : m.kind.isGroup = false) :
    (m.designator : r ν) = n.designator := by
  rw [Node.designator, Node.designator]
  rcases hR.child?_cases h (.inl hk) with ⟨hc, hd⟩ | ⟨c, d, hc, hd, hcd⟩
  · rw [hc, hd]
    exact hR.name h (.inl hk)
  · rw [hc, hd]
    exact nameBy (hR.head h) (hR.text hcd (Node.kind_of_child? hc ▸ rfl))

theorem parameters (h : R m n) (hk : m.kind.isGroup = false) :
    (m.parameters file : r (List (Object ν))) = n.parameters file := by
  rw [Node.parameters, Node.parameters]
  rcases hR.child?_cases h (.inl hk) with ⟨hc, hd⟩ | ⟨c, d, hc, hd, hcd⟩
  · rw [hc, hd]
  · rw [hc, hd]
    obtain ⟨x, ms, ns, hothers, hm, hn⟩ :=
      hR.interfaceList (ν := ν) (r := r) file .parameter hcd (Node.kind_of_child? hc ▸ rfl)
    simp only [hm, hn, bind_map_left]
    refine bind_congr fun os => ?_
    cases hothers with
    | nil => rfl
    | cons hhead _ => simp only [hhead.unexpectedNode]

theorem returnType (h : R m n) (hk : m.kind.isGroup = false) (kind : SubprogramKind) :
    (m.returnType file kind : r (Option Expr)) = n.returnType file kind := by
  have hmark {c d : Node} (hc : c.kind.isText = true) (hcd : R c d) :
      c.fragment file = d.fragment file := hR.fragment hcd hc
  cases kind with
  | procedure => rfl
  | function =>
    rw [Node.returnType, Node.returnType, (hR.head h).missingIn]
    rcases hR.child?_cases h (.inl hk) with ⟨hc, hd⟩ | ⟨c, d, hc, hd, hcd⟩
    · rw [hc, hd]
      rcases hR.child?_cases h (.inl hk) with ⟨hc, hd⟩ | ⟨c, d, hc, hd, hcd⟩
      · rw [hc, hd]
      · rw [hc, hd]
        simp only [Option.or, require, pure_bind, hmark (Node.kind_of_child? hc ▸ rfl) hcd]
    · rw [hc, hd]
      simp only [Option.or, require, pure_bind, hmark (Node.kind_of_child? hc ▸ rfl) hcd]

theorem subprogram (h : R m n) (hk : m.kind.isGroup = false) :
    (Subprogram.ofNode file m : r (Subprogram ν)) = Subprogram.ofNode file n := by
  rw [Subprogram.ofNode, Subprogram.ofNode, (hR.head h).fileSpan]
  refine hR.bind_required h (.inl hk) fun outer outer' houter houters => ?_
  refine hR.bind_subprogramParts houters houter fun kind spec spec' hspec hspecs => ?_
  simp only [hR.designator hspecs hspec, hR.parameters hspecs hspec, hR.returnType hspecs hspec]

theorem typeParts (h : R m n) (hk : m.kind = .rule .typeDeclaration) :
    R m.typeParts n.typeParts ∧ (m.typeParts.kind = .rule .typeDeclaration ∨
      m.typeParts.kind = .rule .fullTypeDeclaration ∨
      m.typeParts.kind = .rule .incompleteTypeDeclaration) := by
  unfold Node.typeParts
  rcases hR.child?_cases h (.inl (hk ▸ rfl)) with ⟨hc, hd⟩ | ⟨c, d, hc, hd, hcd⟩
  · rw [hc, hd]
    rcases hR.child?_cases h (.inl (hk ▸ rfl)) with ⟨hc, hd⟩ | ⟨c, d, hc, hd, hcd⟩
    · rw [hc, hd]
      exact ⟨h, .inl hk⟩
    · rw [hc, hd]
      exact ⟨hcd, .inr (.inr (Node.kind_of_child? hc))⟩
  · rw [hc, hd]
    exact ⟨hcd, .inr (.inl (Node.kind_of_child? hc))⟩

theorem literals (h : R m n) (hk : m.kind = .rule .enumerationTypeDefinition) :
    List.Forall₂ (fun c d => c.sourceText = d.sourceText) m.literals n.literals := by
  have hliterals := hR.childrenOf h (r := .enumerationLiteral) (.inl (hk ▸ rfl))
  have hidents := hR.childrenOf h (r := .identifier) (.inl (hk ▸ rfl))
  unfold Node.literals
  split
  · rename_i hnil
    rw [hnil] at hliterals
    rw [List.forall₂_nil_left_iff.mp hliterals]
    exact hR.texts hidents fun c hc => Node.kind_of_mem_childrenOf hc ▸ rfl
  · rename_i hne
    split
    · rename_i hnil
      rw [hnil] at hliterals
      exact absurd (List.forall₂_nil_right_iff.mp hliterals) hne
    · exact hR.texts hliterals fun c hc => Node.kind_of_mem_childrenOf hc ▸ rfl

theorem typeDefinition (h : R m n) (hk : m.kind = .rule .typeDeclaration ∨
    m.kind = .rule .fullTypeDeclaration ∨ m.kind = .rule .incompleteTypeDeclaration) :
    (m.typeDefinition file : r (TypeDefinition ν)) = n.typeDefinition file := by
  rw [Node.typeDefinition, Node.typeDefinition, ← (hR.head h).kind]
  split
  · rfl
  · rename_i hincomplete
    have hk : m.kind = .rule .typeDeclaration ∨ m.kind = .rule .fullTypeDeclaration :=
      hk.imp_right fun hk => hk.resolve_right hincomplete
    have hgroup : m.kind.isGroup = false := by rcases hk with hk | hk <;> rw [hk] <;> rfl
    generalize hc : m.findDescendant? (.rule .enumerationTypeDefinition) = c,
      n.findDescendant? (.rule .enumerationTypeDefinition) = d, hR.enumeration h hk = henum
    cases henum with
    | none =>
      rcases hR.child?_cases h (.inl hgroup) with ⟨hc, hd⟩ | ⟨c, d, hc, hd, hcd⟩
      · rw [hc, hd]
      · rw [hc, hd]
        simp only [hR.fragment hcd (Node.kind_of_child? hc ▸ rfl)]
    | some hcd =>
      have htexts := hR.literals hcd (Node.kind_of_findDescendant? hc)
      refine congrArg (TypeDefinition.enumeration <$> ·) ?_
      refine List.mapM_eq_of_forall₂ (htexts.imp fun c d hcd => ?_)
      rw [Node.literalName, Node.literalName, hcd]

theorem typeDecl (h : R m n) (hk : m.kind = .rule .typeDeclaration) :
    (TypeDecl.ofNode file m : r (TypeDecl ν)) = TypeDecl.ofNode file n := by
  obtain ⟨hparts, hkind⟩ := hR.typeParts h hk
  have hgroup : m.typeParts.kind.isGroup = false := by
    rcases hkind with hk | hk | hk <;> rw [hk] <;> rfl
  rw [TypeDecl.ofNode, TypeDecl.ofNode, hR.name hparts (.inl hgroup),
    hR.typeDefinition hparts hkind, (hR.head h).fileSpan]

theorem subtypeDecl (h : R m n) (hk : m.kind.isGroup = false) :
    (SubtypeDecl.ofNode file m : r (SubtypeDecl ν)) = SubtypeDecl.ofNode file n := by
  rw [SubtypeDecl.ofNode, SubtypeDecl.ofNode, hR.name h (.inl hk), (hR.head h).fileSpan]
  refine bind_congr fun name => hR.bind_required h (.inl hk) fun c d hc hcd => ?_
  rw [hR.fragment hcd (hc ▸ rfl)]

section Scopes

variable [LawfulLowering ν r l] {ctx : Context}

omit hR [LawfulNaming ν r] in
theorem read_map {α β : Type} [LawfulMonad r] (f : α → β) (x : r α) :
    (read (f <$> x) : l β) = f <$> read x := by
  rw [map_eq_pure_bind, LawfulLowering.read_bind, map_eq_pure_bind]
  exact bind_congr fun a => LawfulLowering.read_pure _

omit [LawfulNaming ν r] in
/-- A node of another kind stops the lowering, so what comes next may rely on the kind. -/
theorem bind_ensure {α : Type} (h : R m n) (rule : Rule) {f g : Unit → l α}
    (hfg : m.kind = .rule rule → f () = g ()) :
    (read (m.ensure rule) >>= f) = read (n.ensure rule) >>= g := by
  rw [← (hR.head h).ensure rule]
  by_cases hk : m.kind = .rule rule
  · exact bind_congr fun _ => hfg hk
  · rw [Node.ensure, if_neg hk, LawfulLowering.read_fail_bind, LawfulLowering.read_fail_bind]

theorem interfaceOfChild (file : FileId) (kind : ObjectKind) (clause : Rule)
    (hclause : Kind.isClause (.rule clause) = true) (h : R m n) (hk : m.kind.isGroup = false) :
    ∃ (x : r (List (Object ν))) (ms ns : List Node), List.Forall₂ Node.SameHead ms ns ∧
      InterfaceList.ofChild file kind clause m = (fun os => InterfaceList.mk os ms) <$> x ∧
      InterfaceList.ofChild file kind clause n = (fun os => InterfaceList.mk os ns) <$> x := by
  rw [InterfaceList.ofChild, InterfaceList.ofChild]
  rcases hR.child?_cases h (.inl hk) with ⟨hc, hd⟩ | ⟨c, d, hc, hd, hcd⟩
  · rw [hc, hd]
    exact ⟨pure [], [], [], .nil, by rw [map_pure], by rw [map_pure]⟩
  · rw [hc, hd]
    exact hR.interfaceList file kind hcd (Node.kind_of_child? hc ▸ hclause)

theorem component (h : R m n) :
    (Component.ofNode ctx m : l (Component ν)) = Component.ofNode ctx n := by
  rw [Component.ofNode, Component.ofNode]
  refine hR.bind_ensure h _ fun hk => ?_
  have hgroup : m.kind.isGroup = false := hk ▸ rfl
  rw [hR.name h (.inl hgroup), (hR.head h).fileSpan]
  refine bind_congr fun name => ?_
  split
  · rfl
  · obtain ⟨x, ms, ns, hms, hm, hn⟩ :=
      hR.interfaceOfChild (ν := ν) (r := r) ctx.file .generic .genericClause rfl h hgroup
    obtain ⟨y, ms', ns', hms', hm', hn'⟩ :=
      hR.interfaceOfChild (ν := ν) (r := r) ctx.file .port .portClause rfl h hgroup
    simp only [hm, hn, hm', hn', read_map, bind_map_left]
    refine bind_congr fun generics => bind_congr fun ports => ?_
    rw [Node.forM_skipAs_eq_of_forall₂ _ (List.rel_append hms hms')]

omit hR in
theorem isGroup_of_supported {k : Kind} (h : ∀ u, Role.ofKind k ≠ .unsupported u) :
    k.isGroup = false := by
  match k with
  | .rule rule => cases rule <;> first | rfl | exact absurd rfl (h _)
  | .other s => rfl

/-- Like items declare the same, if like packages are lowered alike. -/
theorem item {i j : DeclarativeItem} (h : DeclarativeItem.Alike R i j)
    (hrole : i.role = .ofKind i.node.kind)
    (hpackage : R i.node j.node →
      (Package.ofNode ctx i.node : l (Package ν)) = Package.ofNode ctx j.node) :
    (i.lower ctx : l (List (Declaration ν))) = j.lower ctx := by
  rw [DeclarativeItem.lower, DeclarativeItem.lower, ← h.role]
  have hsupported (hi : ∀ u, i.role ≠ .unsupported u) :
      R i.node j.node ∧ i.node.kind.isGroup = false :=
    ⟨h.node hi, isGroup_of_supported (hrole ▸ hi)⟩
  cases hi : i.role with
  | subprogram =>
    obtain ⟨hnode, hk⟩ := hsupported (by simp [hi])
    simp only [hR.subprogram hnode hk]
  | package =>
    obtain ⟨hnode, -⟩ := hsupported (by simp [hi])
    simp only [hpackage hnode]
  | type =>
    obtain ⟨hnode, -⟩ := hsupported (by simp [hi])
    simp only [hR.typeDecl hnode (Role.kind_of_type (hrole ▸ hi))]
  | subtype =>
    obtain ⟨hnode, hk⟩ := hsupported (by simp [hi])
    simp only [hR.subtypeDecl hnode hk]
  | constant | signal | «variable» =>
    obtain ⟨hnode, hk⟩ := hsupported (by simp [hi])
    simp only [hR.objects hnode hk]
  | component =>
    obtain ⟨hnode, -⟩ := hsupported (by simp [hi])
    have hcomponent : (Component.ofNode ctx i.node : l (Component ν)) = _ := hR.component hnode
    simp only [hcomponent]
  | unsupported u =>
    have hskip : (i.node.skipAs u.label : l Unit) = _ := h.head.skipAs _
    simp only [hskip]

theorem package (h : R m n) :
    (Package.ofNode ctx m : l (Package ν)) = Package.ofNode ctx n := by
  induction m using Node.packageInduction generalizing n with
  | h m ih =>
    rw [Package.ofNode, Package.ofNode]
    refine hR.bind_ensure h _ fun hk => ?_
    have hitems : (m.packageItems.mapM fun c => (DeclarativeItem.classify c).lower ctx :
        l (List (List (Declaration ν)))) =
          n.packageItems.mapM fun c => (DeclarativeItem.classify c).lower ctx := by
      have hlike := (List.forall₂_and_left _ _).mpr ⟨ih, hR.packageItems h hk⟩
      refine List.mapM_eq_of_forall₂ (hlike.imp fun c d hcd => ?_)
      exact hR.item hcd.2 (DeclarativeItem.role_classify c) hcd.1
    rw [hR.name h (.inl (hk ▸ rfl)), (hR.head h).fileSpan, m.skipHeader_eq_forM,
      n.skipHeader_eq_forM, hR.headerReports h hk, Package.declarationsOf_eq_mapM,
      Package.declarationsOf_eq_mapM, hitems]

omit hR [LawfulNaming ν r] [LawfulLowering ν r l] in
theorem lowerPart_of_unit (h : n.kind.isContext = false) :
    (DesignFile.lowerPart ctx n : l (List (Package ν))) =
      if n.libraryUnit.kind = .rule .packageDeclaration then do
        return [← Package.ofNode ctx n.libraryUnit]
      else do
        n.libraryUnit.skipAs "DesignFileParser.visitLibrary_unit"
        return [] := by
  unfold DesignFile.lowerPart
  split
  case h_5 => rfl
  all_goals
    rename_i hk
    rw [hk] at h
    cases h

theorem part (h : DesignFile.PartAlike R m n) :
    (DesignFile.lowerPart ctx m : l (List (Package ν))) = DesignFile.lowerPart ctx n := by
  cases h with
  | contextClause hm hn h =>
    have hskip : (m.phrases.forM DesignFile.skipContextItem : l Unit) = _ :=
      Node.forM_skipAs_eq_of_forall₂ _ h
    simp only [DesignFile.lowerPart, hm, hn, hskip]
    rfl
  | contextItem hk h =>
    have hskip : (DesignFile.skipContextItem m : l Unit) = DesignFile.skipContextItem n :=
      h.skipAs _
    rcases hk with hk | hk | hk <;> simp only [DesignFile.lowerPart, hk, h.kind ▸ hk, hskip]
  | unit hm hn h hpackage =>
    have hskip (label : String) : (m.libraryUnit.skipAs label : l Unit) = _ := h.skipAs label
    rw [lowerPart_of_unit hm, lowerPart_of_unit hn, ← h.kind, hskip]
    split
    · rename_i hk
      rw [hR.package (hpackage hk)]
    · rfl

theorem designFile (h : R m n) :
    (DesignFile.lower ctx m : l (List (Package ν))) = DesignFile.lower ctx n := by
  rw [DesignFile.lower, DesignFile.lower]
  refine hR.bind_ensure h _ fun hk => ?_
  rw [List.mapM_eq_of_forall₂ ((hR.unitParts h hk).imp fun p q hpq => hR.part hpq)]

/-- Like trees are lowered alike. -/
theorem lower (h : R m n) (target : Target) :
    (target.lower ctx m : l (Product ν)) = target.lower ctx n := by
  cases target with
  | package => exact congrArg (Product.package <$> ·) (hR.package h)
  | component => exact congrArg (Product.component <$> ·) (hR.component h)
  | designFile => exact congrArg (Product.packages <$> ·) (hR.designFile h)

end Scopes

omit [MonadNaming ν r] [MonadLowering r l] [LawfulNaming ν r] in
/-- In every session like trees give the same answer and leave the same session. -/
theorem step_eq (h : R m n) (s : Session) (target : Target) (ctx : Context) :
    s.step (.lower target ctx m) = s.step (.lower target ctx n) := by
  rw [Session.step, Session.step, hR.lower h target]

end Likeness

end VhdlLowering
