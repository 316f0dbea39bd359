import VhdlLowering.Proofs.Alike
import VhdlLowering.Proofs.Halting
import VhdlLowering.Proofs.Places

/-!
# Skipped constructs are opaque

Of a construct that is skipped only the kind and the position are told. Whatever stands in it, well
formed or not, makes no difference to what lowering answers, logs and interns.
-/

namespace VhdlLowering

namespace Kind

/-- Nodes of these kinds are walked through on the way to what is skipped. -/
def isWalked (k : Kind) : Bool :=
  k.isGroup || k = .rule .packageDeclaration || k = .rule .componentDeclaration

theorem isWalked_of_isGroup {k : Kind} (h : k.isGroup = true) : k.isWalked = true := by
  simp [isWalked, h]

theorem isText_of_isWalked {k : Kind} (h : k.isWalked = true) : k.isText = false := by
  match k with
  | .rule r => cases r <;> first | rfl | cases h
  | .other s => rfl

end Kind

namespace Node

/-- Whether a child is skipped, as far as the kinds tell. -/
def SkippedIn (parent c : Node) : Prop :=
  match parent.kind with
  | .rule .packageDeclarativePart | .rule .packageDeclarativeItem =>
    c.kind ≠ .rule .packageDeclarativeItem ∧ ∃ u, Role.ofKind c.kind = .unsupported u
  | .rule .packageHeader | .rule .contextClause => True
  | .rule .genericClause | .rule .portClause | .rule .formalParameterList | .rule .interfaceList
  | .rule .interfaceElement | .rule .interfaceDeclaration | .rule .interfaceObjectDeclaration =>
    parent.declaresInterface = false ∧ c.kind.isInterfaceObject = false ∧
      c.kind.isInterfaceWrapper = false
  | .rule .libraryUnit | .rule .primaryUnit | .rule .secondaryUnit =>
    isUnitWrapper c.kind = false ∧ c.kind ≠ .rule .packageDeclaration
  | .rule .designUnit =>
    c.kind ≠ .rule .contextClause ∧ isUnitWrapper c.kind = false ∧
      c.kind ≠ .rule .packageDeclaration
  | .rule .designFile =>
    c.kind ≠ .rule .contextClause ∧ isUnitWrapper c.kind = false ∧
      c.kind ≠ .rule .packageDeclaration ∧ c.kind ≠ .rule .designUnit
  | _ => False

/-- A child that is skipped, and what may stand in its place. -/
structure Unread (parent c d : Node) : Prop where
  head : c.SameHead d
  token : parent.kind ≠ .rule .packageDeclarativePart → c.isToken = d.isToken
  skipped : SkippedIn parent c

/-- Children of a parent, one by one; some of them are not read. -/
inductive MaskedChildren (R : Node → Node → Prop) : List Node → List Node → Node → Prop
  | nil {parent : Node} : MaskedChildren R [] [] parent
  | like {parent c d : Node} {cs ds : List Node} (h : R c d) (hs : MaskedChildren R cs ds parent) :
      MaskedChildren R (c :: cs) (d :: ds) parent
  | unread {parent c d : Node} {cs ds : List Node} (h : Unread parent c d)
      (hs : MaskedChildren R cs ds parent) : MaskedChildren R (c :: cs) (d :: ds) parent

/-- Trees that differ only inside of skipped constructs. -/
inductive Masked : Node → Node → Prop
  | same (n : Node) : Masked n n
  | walked {m n : Node} (head : m.SameHead n) (hk : m.kind.isWalked = true)
      (children : MaskedChildren Masked m.children n.children m) : Masked m n

/-- Children of a parent that differ only inside of skipped constructs. -/
def MaskedChild (parent c d : Node) : Prop := Masked c d ∨ Unread parent c d

theorem MaskedChildren.forall₂ {parent : Node} {cs ds : List Node}
    (h : MaskedChildren Masked cs ds parent) : List.Forall₂ (MaskedChild parent) cs ds := by
  induction h with
  | nil => exact .nil
  | like h _ ih => exact .cons (.inl h) ih
  | unread h _ ih => exact .cons (.inr h) ih

theorem maskedChildren_same (parent : Node) (cs : List Node) :
    MaskedChildren Masked cs cs parent := by
  induction cs with
  | nil => exact .nil
  | cons c cs ih => exact .like (.same c) ih

namespace SkippedIn

variable {parent c : Node}

theorem isGroup (h : SkippedIn parent c) : parent.kind.isGroup = true := by
  unfold SkippedIn at h
  split at h <;> simp_all [Kind.isGroup]

theorem declaresInterface (h : SkippedIn parent c) : parent.declaresInterface = false := by
  unfold SkippedIn at h
  split at h <;> first
    | exact h.1
    | simp_all [Node.declaresInterface, Kind.isInterfaceObject, Kind.isInterfaceWrapper]

theorem other (h : SkippedIn parent c)
    (hk : parent.kind.isClause = true ∨ parent.kind.isInterfaceWrapper = true) :
    c.kind.isInterfaceObject = false ∧ c.kind.isInterfaceWrapper = false := by
  unfold SkippedIn at h
  split at h <;> first
    | exact h.2
    | simp_all [Kind.isClause, Kind.isInterfaceWrapper]

theorem unit (h : SkippedIn parent c) (hk : isUnitWrapper parent.kind = true) :
    isUnitWrapper c.kind = false ∧ c.kind ≠ .rule .packageDeclaration := by
  unfold SkippedIn at h
  split at h <;> first
    | exact h
    | simp_all [isUnitWrapper]

/-- What is looked up is not skipped. -/
theorem not_looksUp (h : SkippedIn parent c) (r : Rule) : ¬parent.LooksUp r := by
  rintro (hgroup | ⟨hobject, -⟩)
  · cases h.isGroup.symm.trans hgroup
  · cases h.declaresInterface.symm.trans hobject

end SkippedIn

namespace MaskedChild

variable {parent c d : Node}

theorem head (h : MaskedChild parent c d) : c.SameHead d := by
  rcases h with h | h
  · cases h with
    | same => exact ⟨rfl, rfl⟩
    | walked head => exact head
  · exact h.head

end MaskedChild

namespace Masked

variable {m n : Node}

theorem head (h : Masked m n) : m.SameHead n := (show MaskedChild m m n from .inl h).head

theorem eq_of_not_walked (h : Masked m n) (hk : m.kind.isWalked = false) : m = n := by
  cases h with
  | same => rfl
  | walked _ hwalked => cases hk.symm.trans hwalked

theorem forall₂ (h : Masked m n) : List.Forall₂ (MaskedChild m) m.children n.children := by
  cases h with
  | same => exact (maskedChildren_same m m.children).forall₂
  | walked _ _ children => exact children.forall₂

theorem isToken (h : Masked m n) : m.isToken = n.isToken := by
  cases h with
  | same => rfl
  | walked head hk =>
    match hkind : m.kind with
    | .rule r => rw [isToken_of_rule hkind, isToken_of_rule (head.kind ▸ hkind)]
    | .other s =>
      rw [hkind] at hk
      cases hk

theorem phrases (h : Masked m n) (hk : m.kind ≠ .rule .packageDeclarativePart) :
    List.Forall₂ (MaskedChild m) m.phrases n.phrases := by
  refine List.rel_filter (fun c d hcd => ?_) h.forall₂
  have htoken : c.isToken = d.isToken := hcd.elim Masked.isToken fun h => h.token hk
  simp only [htoken]

theorem childrenOf (h : Masked m n) (k : Kind) :
    List.Forall₂ (MaskedChild m) (m.childrenOf k) (n.childrenOf k) := by
  refine List.rel_filter (fun c d hcd => ?_) h.forall₂
  simp only [hcd.head.kind]

theorem child? (h : Masked m n) (r : Rule) :
    Option.Rel (MaskedChild m) (m.child? (.rule r)) (n.child? (.rule r)) :=
  rel_child?_of_childrenOf (h.childrenOf (.rule r))

theorem childrenOf_of_looksUp (h : Masked m n) {r : Rule} (hr : m.LooksUp r) :
    List.Forall₂ Masked (m.childrenOf (.rule r)) (n.childrenOf (.rule r)) :=
  (h.childrenOf (.rule r)).imp fun _ _ hcd =>
    hcd.resolve_right fun hunread => hunread.skipped.not_looksUp r hr

theorem child?_of_looksUp (h : Masked m n) {r : Rule} (hr : m.LooksUp r) :
    Option.Rel Masked (m.child? (.rule r)) (n.child? (.rule r)) :=
  rel_child?_of_childrenOf (h.childrenOf_of_looksUp hr)

theorem declaresInterface (h : Masked m n) : m.declaresInterface = n.declaresInterface := by
  have hpart (r : Rule) : (m.child? (.rule r)).isSome = (n.child? (.rule r)).isSome := by
    generalize m.child? (.rule r) = c, n.child? (.rule r) = d, h.child? r = hchild
    cases hchild <;> rfl
  simp only [Node.declaresInterface, hasObjectParts, hpart, h.head.kind]

end Masked

theorem Unread.clauseItems {m c d : Node} (h : Unread m c d)
    (hk : m.kind.isClause = true ∨ m.kind.isInterfaceWrapper = true) :
    List.Forall₂ (InterfaceItem.Alike Masked) c.clauseItems d.clauseItems := by
  obtain ⟨hobject, hwrapper⟩ := h.skipped.other hk
  have hother {x : Node} (hx : x.kind = c.kind) : x.clauseItems = [.other x] := by
    simp [Node.clauseItems, declaresInterface, hx, hobject, hwrapper]
  rw [hother rfl, hother h.head.kind.symm]
  exact .cons (.other h.head) .nil

namespace Masked

variable {m n : Node}

theorem interfaceItems {m n : Node} (h : Masked m n)
    (hk : m.kind.isClause = true ∨ m.kind.isInterfaceWrapper = true) :
    List.Forall₂ (InterfaceItem.Alike Masked) m.interfaceItems n.interfaceItems := by
  have hparent : m.kind ≠ .rule .packageDeclarativePart := by
    intro hm
    rw [hm] at hk
    rcases hk with hk | hk <;> cases hk
  have hphrases : List.Forall₂
      (fun c d => List.Forall₂ (InterfaceItem.Alike Masked) c.clauseItems d.clauseItems)
      m.phrases n.phrases := by
    have hsize (c : Node) (hc : c ∈ m.phrases) : c.size < m.size :=
      size_lt_of_mem_children (List.mem_filter.mp hc).1
    refine ((List.forall₂_and_left _ _).mpr ⟨hsize, h.phrases hparent⟩).imp ?_
    intro c d hcd
    obtain ⟨hsize, hcd | hunread⟩ := hcd
    · rw [clauseItems, clauseItems, ← hcd.declaresInterface, ← hcd.head.kind]
      split
      · rename_i hobject
        exact .cons (.object hcd hobject) .nil
      · split
        · rename_i hwrapper
          exact hcd.interfaceItems (.inr hwrapper)
        · exact .cons (.other hcd.head) .nil
    · exact hunread.clauseItems hk
  rw [interfaceItems_eq_flatMap, interfaceItems_eq_flatMap]
  exact List.rel_flatMap hphrases fun _ _ h => h
termination_by m.size

/-- Units that are told alike, and if they are packages then they differ only inside. -/
structure UnitAlike (u v : Node) : Prop where
  head : u.SameHead v
  package : u.kind = .rule .packageDeclaration → Masked u v

theorem unitAlike (h : Masked m n) : UnitAlike m n := ⟨h.head, fun _ => h⟩

end Masked

open Masked (UnitAlike)

theorem libraryUnit_of_not_wrapper {n : Node} (h : isUnitWrapper n.kind = false) :
    n.libraryUnit = n := by
  rw [libraryUnit_eq, h]
  rfl

theorem ne_part_of_isUnitWrapper {k : Kind} (h : isUnitWrapper k = true) :
    k ≠ .rule .packageDeclarativePart := by
  rintro rfl
  cases h

theorem Unread.libraryUnit {m c d : Node} (h : Unread m c d)
    (hwrapper : isUnitWrapper c.kind = false) (hpackage : c.kind ≠ .rule .packageDeclaration) :
    UnitAlike c.libraryUnit d.libraryUnit := by
  rw [libraryUnit_of_not_wrapper hwrapper, libraryUnit_of_not_wrapper (h.head.kind ▸ hwrapper)]
  exact ⟨h.head, fun hk => absurd hk hpackage⟩

theorem Masked.libraryUnit {m n : Node} (h : Masked m n) :
    UnitAlike m.libraryUnit n.libraryUnit := by
  rw [libraryUnit_eq m, libraryUnit_eq n, ← h.head.kind]
  split
  · rename_i hwrapper
    have hphrases := h.phrases (ne_part_of_isUnitWrapper hwrapper)
    have hsize (c : Node) (hc : c ∈ m.phrases) : c.size < m.size :=
      size_lt_of_mem_children (List.mem_filter.mp hc).1
    generalize m.phrases = cs, n.phrases = ds at hphrases hsize
    cases hphrases with
    | nil => exact h.unitAlike
    | cons hcd =>
      have hc := hsize _ List.mem_cons_self
      rcases hcd with hcd | hunread
      · exact hcd.libraryUnit
      · obtain ⟨hunit, hpackage⟩ := hunread.skipped.unit hwrapper
        exact hunread.libraryUnit hunit hpackage
  · exact h.unitAlike
termination_by m.size

theorem Unread.part {m p q : Node} (h : Unread m p q) (hclause : p.kind ≠ .rule .contextClause)
    (hwrapper : isUnitWrapper p.kind = false) (hpackage : p.kind ≠ .rule .packageDeclaration) :
    DesignFile.PartAlike Masked p q := by
  by_cases hitem : p.kind = .rule .contextItem ∨ p.kind = .rule .libraryClause ∨
      p.kind = .rule .useClause
  · exact .contextItem hitem h.head
  · have hcontext : p.kind.isContext = false := by
      unfold Kind.isContext
      split <;> simp_all
    obtain ⟨head, hmasked⟩ := h.libraryUnit hwrapper hpackage
    exact .unit hcontext (h.head.kind ▸ hcontext) head hmasked

theorem Masked.part {p q : Node} (h : Masked p q) : DesignFile.PartAlike Masked p q := by
  by_cases hclause : p.kind = .rule .contextClause
  · have hphrases := h.phrases (by simp [hclause])
    exact .contextClause hclause (h.head.kind ▸ hclause) (hphrases.imp fun _ _ hcd => hcd.head)
  · by_cases hitem : p.kind = .rule .contextItem ∨ p.kind = .rule .libraryClause ∨
        p.kind = .rule .useClause
    · exact .contextItem hitem h.head
    · have hcontext : p.kind.isContext = false := by
        unfold Kind.isContext
        split <;> simp_all
      exact .unit hcontext (h.head.kind ▸ hcontext) h.libraryUnit.head h.libraryUnit.package

theorem MaskedChild.part {parent p q : Node} (h : MaskedChild parent p q)
    (hk : parent.kind = .rule .designFile ∨ parent.kind = .rule .designUnit) :
    DesignFile.PartAlike Masked p q := by
  refine h.elim Masked.part fun hunread => ?_
  have hskipped := hunread.skipped
  rw [SkippedIn] at hskipped
  rcases hk with hk | hk
  · rw [hk] at hskipped
    exact hunread.part hskipped.1 hskipped.2.1 hskipped.2.2.1
  · rw [hk] at hskipped
    exact hunread.part hskipped.1 hskipped.2.1 hskipped.2.2

theorem Masked.unitParts {m n : Node} (h : Masked m n) (hk : m.kind = .rule .designFile) :
    List.Forall₂ (DesignFile.PartAlike Masked) m.unitParts n.unitParts := by
  rw [Node.unitParts, Node.unitParts]
  refine List.rel_flatMap (h.phrases (by simp [hk])) fun c d hcd => ?_
  by_cases hunit : c.kind = .rule .designUnit
  · rw [if_pos hunit, if_pos (hcd.head.kind ▸ hunit)]
    rcases hcd with hcd | hunread
    · exact (hcd.phrases (by simp [hunit])).imp fun _ _ hpq => hpq.part (.inr hunit)
    · have hskipped := hunread.skipped
      rw [SkippedIn, hk] at hskipped
      exact absurd hunit hskipped.2.2.2
  · rw [if_neg hunit, if_neg (hcd.head.kind ▸ hunit)]
    exact .cons (hcd.part (.inl hk)) .nil

theorem Masked.headerReports {m n : Node} (h : Masked m n)
    (hk : m.kind = .rule .packageDeclaration) : m.headerReports = n.headerReports := by
  have hreport {parent : Node} {a b : Option Node} (hab : Option.Rel (MaskedChild parent) a b)
      (label : String) : a.map (Skipped.ofNode label) = b.map (Skipped.ofNode label) := by
    cases hab with
    | none => rfl
    | some hcd => rw [Option.map_some, Option.map_some, Skipped.ofNode, Skipped.ofNode,
        hcd.head.kind, hcd.head.span]
  rw [Node.headerReports, Node.headerReports]
  generalize m.child? (.rule .packageHeader) = c, n.child? (.rule .packageHeader) = d,
    h.child?_of_looksUp (r := .packageHeader) (.inl (hk ▸ rfl)) = hchild
  cases hchild with
  | none => rfl
  | some hcd =>
    simp only [hreport (hcd.child? .genericClause), hreport (hcd.child? .genericMapAspect)]

theorem Masked.bare {m n : Node} (h : Masked m n) :
    DeclarativeItem.Alike Masked (.bare m) (.bare n) :=
  ⟨congrArg Role.ofKind h.head.kind, h.head, fun _ => h⟩

theorem Unread.bare {parent m n : Node} (h : Unread parent m n)
    (hrole : ∃ u, Role.ofKind m.kind = .unsupported u) :
    DeclarativeItem.Alike Masked (.bare m) (.bare n) := by
  obtain ⟨u, hu⟩ := hrole
  exact ⟨congrArg Role.ofKind h.head.kind, h.head, fun hsupported => absurd hu (hsupported u)⟩

theorem MaskedChild.classify {parent m n : Node} (h : MaskedChild parent m n)
    (hparent : parent.kind = .rule .packageDeclarativePart) :
    DeclarativeItem.Alike Masked (.classify m) (.classify n) := by
  rw [DeclarativeItem.classify, DeclarativeItem.classify, ← h.head.kind]
  rcases h with h | hunread
  · split
    · rename_i hk
      have hfound (rules : List Rule) :
          Option.Rel (MaskedChild m) (rules.findSome? fun r => m.child? (.rule r))
            (rules.findSome? fun r => n.child? (.rule r)) := by
        induction rules with
        | nil => exact .none
        | cons r rules ih =>
          rw [List.findSome?_cons, List.findSome?_cons]
          generalize m.child? (.rule r) = c, n.child? (.rule r) = d, h.child? r = hchild
          cases hchild with
          | none => exact ih
          | some hcd => exact .some hcd
      generalize Rule.declarations.findSome? (fun r => m.child? (.rule r)) = c,
        Rule.declarations.findSome? (fun r => n.child? (.rule r)) = d,
        hfound Rule.declarations = hcd
      cases hcd with
      | none => exact ⟨rfl, h.head, fun hu => absurd rfl (hu .other)⟩
      | some hcd =>
        refine hcd.elim Masked.bare fun hunread => hunread.bare ?_
        have hskipped := hunread.skipped
        rw [SkippedIn, hk] at hskipped
        exact hskipped.2
    · exact h.bare
  · have hskipped := hunread.skipped
    rw [SkippedIn, hparent] at hskipped
    rw [if_neg hskipped.1, if_neg hskipped.1]
    exact hunread.bare hskipped.2

theorem Masked.packageItems {m n : Node} (h : Masked m n)
    (hk : m.kind = .rule .packageDeclaration) :
    List.Forall₂ (fun c d => DeclarativeItem.Alike Masked (.classify c) (.classify d))
      m.packageItems n.packageItems := by
  rw [Node.packageItems, Node.packageItems]
  generalize hc : m.child? (.rule .packageDeclarativePart) = c,
    n.child? (.rule .packageDeclarativePart) = d,
    h.child?_of_looksUp (r := .packageDeclarativePart) (.inl (hk ▸ rfl)) = hchild
  cases hchild with
  | none => exact .nil
  | some hcd => exact hcd.forall₂.imp fun _ _ h => h.classify (kind_of_child? hc)

/-- Trees that differ only inside of skipped constructs are lowered alike. -/
theorem likeness_masked : Likeness Masked where
  head h := h.head
  text h hk := by
    cases h with
    | same => rfl
    | walked _ hwalked => cases hk.symm.trans (Kind.isText_of_isWalked hwalked)
  childrenOf h _ hr := h.childrenOf_of_looksUp hr
  enumeration h hk := by
    rw [h.eq_of_not_walked (by rcases hk with hk | hk <;> rw [hk] <;> rfl)]
    generalize Node.findDescendant? _ _ = c
    cases c with
    | none => exact .none
    | some c => exact .some (.same c)
  interfaceItems h hk := h.interfaceItems (.inl hk)
  headerReports := Masked.headerReports
  packageItems := Masked.packageItems
  unitParts := Masked.unitParts

/-- The node with another text and other children. -/
def refill (text : String) (cs : List Node) (n : Node) : Node :=
  { n with text := text, children := cs }

section Modify

variable {f g : Node → Node} {n c : Node} {i : Nat} {path : List Nat}

theorem maskedChildren_modify {parent : Node} {cs : List Node} (hi : cs[i]? = some c)
    (h : MaskedChild parent c (g c)) : MaskedChildren Masked cs (cs.modify i g) parent := by
  induction cs generalizing i with
  | nil => cases hi
  | cons d cs ih =>
    cases i with
    | zero =>
      cases hi
      rw [List.modify_zero_cons]
      exact h.elim (fun h => .like h (maskedChildren_same parent cs))
        fun h => .unread h (maskedChildren_same parent cs)
    | succ i =>
      rw [List.modify_succ_cons]
      exact .like (.same d) (ih hi)

/-- What differs in a child only inside of skipped constructs differs so in the parent. -/
theorem masked_modifyAt_cons (hk : n.kind.isWalked = true) (hi : n.children[i]? = some c)
    (h : MaskedChild n c (modifyAt f path c)) : Masked n (modifyAt f (i :: path) n) :=
  .walked ⟨rfl, rfl⟩ hk (maskedChildren_modify hi h)

end Modify

theorem isWalked_of_interface {k : Kind}
    (h : k.isClause = true ∨ k.isInterfaceWrapper = true) : k.isWalked = true :=
  Kind.isWalked_of_isGroup (Kind.isGroup_of_takesWrappers
    (h.elim Kind.takesWrappers_of_isClause Kind.takesWrappers_of_isInterfaceWrapper))

theorem skippedIn_of_interface {n c : Node}
    (hn : n.kind.isClause = true ∨ n.kind.isInterfaceWrapper = true)
    (hparts : n.declaresInterface = false) (hobject : c.declaresInterface = false)
    (hwrapper : c.kind.isInterfaceWrapper = false) : SkippedIn n c := by
  have hkind : c.kind.isInterfaceObject = false := by
    simpa [declaresInterface, hwrapper] using hobject
  unfold SkippedIn
  split <;> simp_all [Kind.isClause, Kind.isInterfaceWrapper]

end Node

/-- Whether all that stands in the construct is without effect. Items in a wrapper that cannot be
looked through, and wrappers around nothing, are skipped because of what stands in them. -/
def Construct.IsOpaque : Construct → Kind → Prop
  | item _, k => k ≠ .rule .packageDeclarativeItem
  | libraryUnit, k => Node.isUnitWrapper k = false
  | genericClause, _ | genericMapAspect, _ | interface, _ | contextItem, _ => True

/-- Tokens are passed over everywhere but among the items of a package. -/
def Construct.mayBeToken : Construct → Bool
  | item _ => true
  | genericClause | genericMapAspect | interface | contextItem | libraryUnit => false

section Refill

open Node

variable {text : String} {cs : List Node} {path : List Nat} {x : Construct}

theorem Node.HandsBack.masked {n c : Node} (h : n.HandsBack path c)
    (hn : n.kind.isClause = true ∨ n.kind.isInterfaceWrapper = true)
    (hparts : n.declaresInterface = false) (htoken : (c.refill text cs).isToken = false) :
    Masked n (modifyAt (refill text cs) path n) := by
  induction h with
  | other hi hc hobject hwrapper =>
    refine masked_modifyAt_cons (isWalked_of_interface hn) hi (.inr ⟨⟨rfl, rfl⟩, fun _ => ?_, ?_⟩)
    · exact hc.trans htoken.symm
    · exact skippedIn_of_interface hn hparts hobject hwrapper
  | wrapped hi _ hobject hwrapper _ ih =>
    exact masked_modifyAt_cons (isWalked_of_interface hn) hi (.inl (ih (.inr hwrapper) hobject htoken))

/-- A part of the header of a package. -/
theorem Node.masked_header {n header c : Node} {r : Rule} {i j : Nat}
    (hn : n.kind = .rule .packageDeclaration) (hi : n.FirstAt .packageHeader i header)
    (hj : header.FirstAt r j c) : Masked n (modifyAt (refill text cs) [i, j] n) := by
  have hrefill : (c.refill text cs).kind = .rule r := hj.kind
  refine masked_modifyAt_cons (hn ▸ rfl) hi.child (.inl ?_)
  refine masked_modifyAt_cons (hi.kind ▸ rfl) hj.child (.inr ⟨⟨rfl, rfl⟩, fun _ => ?_, ?_⟩)
  · rw [modifyAt_nil, isToken_of_rule hj.kind, isToken_of_rule hrefill]
  · rw [SkippedIn, hi.kind]
    trivial

/-- The items of a package or the wrapper that an item stands in. -/
def Node.HoldsItem (parent c : Node) : Prop :=
  parent.kind = .rule .packageDeclarativePart ∨
    parent.kind = .rule .packageDeclarativeItem ∧ ∃ r, c.kind = .rule r

/-- An item with another content in a skipped construct, among the items of a package or in a
wrapper. -/
theorem DeclarativeItem.Skips.masked {item : DeclarativeItem} {c : Node}
    (h : item.Skips path x c) (hskip : x.IsOpaque c.kind)
    (htoken : x.mayBeToken = true ∨ (c.refill text cs).isToken = false)
    (hrole : item.role = .ofKind item.node.kind) (parent : Node)
    (hparent : parent.HoldsItem item.node) :
    MaskedChild parent item.node (modifyAt (refill text cs) path item.node) := by
  induction h generalizing parent with
  | @item u n =>
    refine .inr ⟨⟨rfl, rfl⟩, fun hpart => ?_, ?_⟩
    · obtain ⟨-, r, hr⟩ := hparent.resolve_left hpart
      have hrefill : (n.refill text cs).kind = .rule r := hr
      rw [modifyAt_nil, isToken_of_rule hr, isToken_of_rule hrefill]
    · rw [SkippedIn]
      rcases hparent with hk | ⟨hk, -⟩ <;> rw [hk] <;> exact ⟨hskip, u, hrole.symm⟩
  | @interface n clause c r i path hr hi h =>
    have hkind : n.kind = .rule .componentDeclaration := Role.kind_of_component hrole.symm
    have hclause : clause.kind.isClause = true ∧ clause.declaresInterface = false := by
      rw [declaresInterface, hi.kind]
      rcases hr with rfl | rfl <;> exact ⟨rfl, rfl⟩
    refine .inl (masked_modifyAt_cons (hkind ▸ rfl) hi.child (.inl ?_))
    exact h.masked (.inl hclause.1) hclause.2 (htoken.resolve_left (by decide))
  | genericClause hi hj =>
    exact .inl (masked_header (Role.kind_of_package hrole.symm) hi hj)
  | genericMapAspect hi hj =>
    exact .inl (masked_header (Role.kind_of_package hrole.symm) hi hj)
  | @inner n part c d i j path path' x hi hj hpath h ih =>
    have hkind : n.kind = .rule .packageDeclaration := Role.kind_of_package hrole.symm
    have hclassify := role_classify c
    refine .inl (masked_modifyAt_cons (hkind ▸ rfl) hi.child (.inl ?_))
    refine masked_modifyAt_cons (hi.kind ▸ rfl) hj ?_
    rw [modifyAt_append]
    cases hpath with
    | itself hc =>
      have hchild := ih hskip htoken hclassify part (.inl hi.kind)
      rw [hc] at hchild
      exact hchild
    | @wrapped d r k hwrapper hk hc =>
      have hd : (classify c).node = d := by rw [hc, bare]
      have hchild := ih hskip htoken hclassify c (.inr ⟨hwrapper, r, hd ▸ hk.kind⟩)
      rw [hd] at hchild
      exact .inl (masked_modifyAt_cons (hwrapper ▸ rfl) hk.child hchild)

/-- The file or the unit that a part of a unit stands in. -/
def Node.HoldsPart (parent c : Node) : Prop :=
  parent.kind = .rule .designFile ∧ c.kind ≠ .rule .designUnit ∨ parent.kind = .rule .designUnit

/-- The file, the unit or the wrapper that a library unit stands in. -/
def Node.HoldsUnit (parent c : Node) : Prop :=
  parent.HoldsPart c ∧ c.kind.isContext = false ∨ isUnitWrapper parent.kind = true

theorem Node.HoldsPart.skippedIn {parent c : Node} (h : parent.HoldsPart c)
    (hclause : c.kind ≠ .rule .contextClause) (hunit : isUnitWrapper c.kind = false)
    (hpackage : c.kind ≠ .rule .packageDeclaration) : SkippedIn parent c := by
  rw [SkippedIn]
  rcases h with ⟨hk, hdesign⟩ | hk
  · rw [hk]
    exact ⟨hclause, hunit, hpackage, hdesign⟩
  · rw [hk]
    exact ⟨hclause, hunit, hpackage⟩

theorem Node.HoldsUnit.skippedIn {parent c : Node} (h : parent.HoldsUnit c)
    (hunit : isUnitWrapper c.kind = false) (hpackage : c.kind ≠ .rule .packageDeclaration) :
    SkippedIn parent c := by
  rcases h with ⟨hpart, hcontext⟩ | hk
  · refine hpart.skippedIn (fun hclause => ?_) hunit hpackage
    rw [hclause] at hcontext
    cases hcontext
  · simp only [isUnitWrapper, Bool.or_eq_true, decide_eq_true_eq] at hk
    rw [SkippedIn]
    rcases hk with (hk | hk) | hk <;> rw [hk] <;> exact ⟨hunit, hpackage⟩

variable {f : Node → Node} {root p u : Node}

theorem Node.PartAt.isToken (hp : root.PartAt path p) : p.isToken = false := by
  cases hp with
  | inFile _ htoken => exact htoken
  | inUnit _ _ _ htoken => exact htoken

theorem Node.UnitAt.isToken (hu : p.UnitAt path u) (hp : p.isToken = false) :
    u.isToken = false := by
  induction hu with
  | unit => exact hp
  | wrapper _ _ htoken _ _ ih => exact ih htoken

theorem Node.PartAt.masked (hp : root.PartAt path p) (hroot : root.kind = .rule .designFile)
    (h : ∀ parent : Node, parent.HoldsPart p → MaskedChild parent p (f p)) :
    Masked root (modifyAt f path root) := by
  have hfile : root.kind.isWalked = true := hroot ▸ rfl
  cases hp with
  | inFile hi _ hkind => exact masked_modifyAt_cons hfile hi (h root (.inl ⟨hroot, hkind⟩))
  | @inUnit i j unit _ hi hkind hj =>
    refine masked_modifyAt_cons hfile hi (.inl ?_)
    exact masked_modifyAt_cons (hkind ▸ rfl) hj (h unit (.inr hkind))

theorem Node.UnitAt.masked (hu : p.UnitAt path u)
    (h : ∀ parent : Node, parent.HoldsUnit u → MaskedChild parent u (f u)) (parent : Node)
    (hparent : parent.HoldsUnit p) : MaskedChild parent p (modifyAt f path p) := by
  induction hu generalizing parent with
  | unit => exact h parent hparent
  | @wrapper n _ _ _ _ hkind hi _ _ _ ih =>
    have hwalked := Kind.isWalked_of_isGroup (Kind.isGroup_of_isUnitWrapper hkind)
    exact .inl (masked_modifyAt_cons hwalked hi (ih h n (.inr hkind)))

theorem Node.masked_package {c : Node} (hu : u.kind = .rule .packageDeclaration)
    (h : DeclarativeItem.Skips ⟨.package, u⟩ path x c) (hskip : x.IsOpaque c.kind)
    (htoken : x.mayBeToken = true ∨ (c.refill text cs).isToken = false) :
    Masked u (modifyAt (refill text cs) path u) := by
  have hrole : Role.package = .ofKind u.kind := hu ▸ rfl
  have hmasked := h.masked hskip htoken hrole (leaf (.rule .packageDeclarativePart) default "")
    (.inl rfl)
  refine hmasked.resolve_right fun hunread => ?_
  obtain ⟨-, v, hv⟩ := hunread.skipped
  cases hrole.trans hv

theorem DesignFile.Skips.masked {c : Node} (h : Skips root path x c)
    (hroot : root.kind = .rule .designFile) (hskip : x.IsOpaque c.kind)
    (htoken : x.mayBeToken = true ∨ (c.refill text cs).isToken = false) :
    Masked root (modifyAt (refill text cs) path root) := by
  cases h with
  | @clause p _ path i hp hkind hi hc =>
    rw [modifyAt_append]
    refine hp.masked hroot fun _ _ => .inl (masked_modifyAt_cons (hkind ▸ rfl) hi (.inr ?_))
    refine ⟨⟨rfl, rfl⟩, fun _ => hc.trans (htoken.resolve_left nofun).symm, ?_⟩
    rw [SkippedIn, hkind]
    trivial
  | contextItem hp hkind =>
    refine hp.masked hroot fun parent hparent => .inr ⟨⟨rfl, rfl⟩, fun _ => ?_, ?_⟩
    · exact hp.isToken.trans (htoken.resolve_left nofun).symm
    · apply hparent.skippedIn <;> rcases hkind with hk | hk | hk <;> rw [hk] <;> decide
  | libraryUnit hp hcontext hu hkind =>
    rw [modifyAt_append]
    refine hp.masked hroot fun parent hparent => hu.masked ?_ parent (.inl ⟨hparent, hcontext⟩)
    intro parent hparent
    refine .inr ⟨⟨rfl, rfl⟩, fun _ => ?_, hparent.skippedIn hskip hkind⟩
    exact (hu.isToken hp.isToken).trans (htoken.resolve_left nofun).symm
  | inPackage hp hcontext hu hkind h =>
    rw [List.append_assoc, modifyAt_append, modifyAt_append]
    refine hp.masked hroot fun parent hparent => hu.masked ?_ parent (.inl ⟨hparent, hcontext⟩)
    exact fun _ _ => .inl (masked_package hkind h hskip htoken)

/-- Another node below the root keeps the kind and the span of the root. -/
theorem DesignFile.Skips.sameHead {c : Node} (h : Skips root path x c) :
    root.SameHead (modifyAt f path root) := by
  have hcons {i : Nat} {rest : List Nat} : root.SameHead (modifyAt f (i :: rest) root) := ⟨rfl, rfl⟩
  cases h with
  | clause hp => cases hp <;> exact hcons
  | contextItem hp => cases hp <;> exact hcons
  | libraryUnit hp => cases hp <;> exact hcons
  | inPackage hp => cases hp <;> exact hcons

end Refill

namespace Session

/-- Every entry of the log is about a construct that is skipped, and what stands in a skipped construct
makes no difference: neither to the answer nor to the log nor to the names. -/
theorem skipped_irrelevant (s : Session) (ctx : Context) (root : Node) :
    (∃ entries : Log, (s.step (.lower .designFile ctx root)).2.log = s.log ++ entries ∧
      ∀ e ∈ entries, ∃ path x c, DesignFile.Skips root path x c ∧ root.at? path = some c ∧
        e = .ofNode x.label c) ∧
    ∀ path x c, DesignFile.Skips root path x c → x.IsOpaque c.kind →
      ∀ text cs, x.mayBeToken = true ∨ (c.refill text cs).isToken = false →
        s.step (.lower .designFile ctx (Node.modifyAt (Node.refill text cs) path root)) =
          s.step (.lower .designFile ctx root) := by
  constructor
  · have hlogs := (@DesignFile.logs_lower ctx root).map Product.packages
    refine ⟨_, congrArg Session.log step_lower_eq_after, fun e he => ?_⟩
    obtain ⟨path, x, c, h, rfl⟩ := hlogs.holds e he
    exact ⟨path, x, c, h, h.at?, rfl⟩
  · intro path x c h hskip text cs htoken
    by_cases hroot : root.kind = .rule .designFile
    · exact (Node.likeness_masked.step_eq (h.masked hroot hskip htoken) s .designFile ctx).symm
    · have hcut : Target.designFile.Cut ctx root (Node.modifyAt (Node.refill text cs) path root) :=
        .kind h.sameHead hroot
      exact (step_eq_of_cut hcut).2.symm

/-- A package with an attribute specification that holds the given nodes. -/
def attributed (cs : List Node) : Node :=
  let item : Node := .branch (.rule .packageDeclarativeItem) ⟨3, 8⟩
    [⟨.rule .attributeSpecification, ⟨3, 8⟩, "", cs⟩]
  .branch (.rule .designFile) ⟨0, 12⟩ [.branch (.rule .libraryUnit) ⟨0, 11⟩
    [.branch (.rule .packageDeclaration) ⟨0, 10⟩ [.leaf (.rule .identifier) ⟨1, 2⟩ "p",
      .branch (.rule .packageDeclarativePart) ⟨3, 9⟩ [item, item]]]]

/-- A constant without a name may stand in an attribute specification. -/
theorem attributed_irrelevant :
    let nameless : Node := .leaf (.rule .constantDeclaration) ⟨4, 5⟩ ""
    let path := [0, 0, 1, 0, 0]
    let refilled := Node.modifyAt (Node.refill "" [nameless]) path (attributed [])
    refilled ≠ attributed [] ∧
      (start.step (.lower .designFile ⟨⟨0⟩, false⟩ refilled)).2.log.length = 2 ∧
      start.step (.lower .designFile ⟨⟨0⟩, false⟩ refilled) =
        start.step (.lower .designFile ⟨⟨0⟩, false⟩ (attributed [])) := by
  intro nameless path refilled
  have hskips : DesignFile.Skips (attributed []) path (.item .attributeSpecification)
      ⟨.rule .attributeSpecification, ⟨3, 8⟩, "", []⟩ := by
    show DesignFile.Skips (attributed []) ([0] ++ [0] ++ 1 :: 0 :: ([0] ++ [])) _ _
    refine .inPackage (.inFile rfl rfl (by decide)) rfl
      (.wrapper rfl rfl rfl nofun (.unit (.inl rfl))) rfl
      (.inner ⟨rfl, rfl, fun j hj d hd => ?_⟩ rfl (.wrapped rfl ⟨rfl, rfl, nofun⟩ rfl) .item)
    obtain rfl : j = 0 := by omega
    cases hd
    decide
  refine ⟨by decide +kernel, by decide +kernel, ?_⟩
  exact (skipped_irrelevant start ⟨⟨0⟩, false⟩ (attributed [])).2 path _ _ hskips
    (by simp [Construct.IsOpaque]) "" [nameless] (.inl rfl)

end Session

end VhdlLowering
