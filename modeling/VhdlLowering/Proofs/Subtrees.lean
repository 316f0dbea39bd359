import VhdlLowering.Lowering.DesignFile
import VhdlLowering.Proofs.Grammar
import VhdlLowering.Syntax.Preorder

/-!
# Where lowering looks

Whatever lowering reads is a node of the tree: a child, a part of an item, a unit in its wrappers or
what stands in an interface clause.
-/

namespace VhdlLowering

def InterfaceItem.node : InterfaceItem → Node
  | object n | other n => n

namespace Node

/-- A node of a tree: its root, or a node anywhere below it. -/
inductive Within : Node → Node → Prop
  | root (n : Node) : Within n n
  | inChild {c d n : Node} (hd : d ∈ n.children) (hc : Within c d) : Within c n

theorem Within.trans {a b n : Node} (hab : a.Within b) (hbn : b.Within n) : a.Within n := by
  induction hbn with
  | root => exact hab
  | inChild hd _ ih => exact .inChild hd ih

theorem within_of_child {c n : Node} (h : c ∈ n.children) : c.Within n := .inChild h (.root c)

theorem within_of_child? {c n : Node} {k : Kind} (h : n.child? k = some c) : c.Within n :=
  within_of_child (mem_children_of_child? h)

/-- A node is below another one if it is in one of its children. -/
def Below (d n : Node) : Prop := ∃ c ∈ n.children, d.Within c

theorem Below.within {d n : Node} (h : d.Below n) : d.Within n := by
  obtain ⟨c, hc, hd⟩ := h
  exact .inChild hc hd

theorem Within.eq_or_below {d n : Node} (h : d.Within n) : d = n ∨ d.Below n := by
  cases h with
  | root => exact .inl rfl
  | inChild hc hd => exact .inr ⟨_, hc, hd⟩

mutual

theorem mem_preorder_iff {c : Node} : ∀ n : Node, c ∈ n.preorder ↔ c.Within n
  | ⟨kind, span, text, cs⟩ => by
    rw [preorder, List.mem_cons, mem_preorderOf_iff cs]
    constructor
    · rintro (rfl | ⟨d, hd, hc⟩)
      · exact .root _
      · exact .inChild hd hc
    · intro h
      cases h with
      | root => exact .inl rfl
      | inChild hd hc => exact .inr ⟨_, hd, hc⟩

theorem mem_preorderOf_iff {c : Node} :
    ∀ ds : List Node, c ∈ preorderOf ds ↔ ∃ d ∈ ds, c.Within d
  | [] => by simp [preorderOf]
  | d :: ds => by simp [preorderOf, mem_preorder_iff d, mem_preorderOf_iff ds]

end

theorem mem_descendants_iff {d n : Node} : d ∈ n.descendants ↔ d.Below n :=
  mem_preorderOf_iff n.children

theorem below_of_findDescendant? {k : Kind} {d n : Node} (h : n.findDescendant? k = some d) :
    d.Below n := by
  rw [findDescendant?_eq_find?] at h
  exact mem_descendants_iff.mp (List.mem_of_find?_eq_some h)

theorem Holds.within {n : Node} {item : InterfaceItem} (h : n.Holds item) :
    item.node.Within n := by
  induction h with
  | object hc => exact within_of_child (List.mem_filter.mp hc).1
  | wrapped hc _ _ _ ih => exact .inChild (List.mem_filter.mp hc).1 ih
  | other hc => exact within_of_child (List.mem_filter.mp hc).1

theorem within_of_packageItem {c n : Node} (h : c ∈ n.packageItems) : c.Within n := by
  unfold packageItems at h
  cases hpart : n.child? (.rule .packageDeclarativePart) with
  | none =>
    rw [hpart] at h
    cases h
  | some part =>
    rw [hpart] at h
    exact (within_of_child h).trans (within_of_child? hpart)

theorem within_classify (n : Node) : (DeclarativeItem.classify n).node.Within n := by
  rcases DeclarativeItem.classify_node n with h | h
  · rw [h]
    exact .root n
  · exact within_of_child h

theorem Specifies.within {n spec : Node} {kind : SubprogramKind} (h : n.Specifies kind spec) :
    spec.Within n := by
  cases h with
  | function hf => exact within_of_child? hf
  | procedure _ hp => exact within_of_child? hp

theorem within_typeParts (n : Node) : n.typeParts.Within n := by
  unfold typeParts
  cases hfull : n.child? (.rule .fullTypeDeclaration) with
  | some c => exact within_of_child? hfull
  | none =>
    cases hincomplete : n.child? (.rule .incompleteTypeDeclaration) with
    | some c => exact within_of_child? hincomplete
    | none => exact .root n

theorem within_of_unitPart {c n : Node} (h : c ∈ n.unitParts) : c.Within n := by
  obtain ⟨u, hu, hc⟩ := List.mem_flatMap.mp h
  have hunit : u.Within n := within_of_child (List.mem_filter.mp hu).1
  split at hc
  · exact (within_of_child (List.mem_filter.mp hc).1).trans hunit
  · cases List.mem_singleton.mp hc
    exact hunit

/-- The second node is the unit in the wrappers of the first one: as long as there is a wrapper with
a child that is no token, its first such child is taken for it. -/
inductive Unwraps : Node → Node → Prop
  | unit {n : Node} (h : isUnitWrapper n.kind = false ∨ n.phrases = []) : Unwraps n n
  | wrapper {n c u : Node} {rest : List Node} (hkind : isUnitWrapper n.kind = true)
      (hc : n.phrases = c :: rest) (hu : Unwraps c u) : Unwraps n u

theorem unwraps_libraryUnit (n : Node) : n.Unwraps n.libraryUnit := by
  rw [libraryUnit_eq]
  cases hkind : isUnitWrapper n.kind with
  | false => exact .unit (.inl hkind)
  | true =>
    cases hphrases : n.phrases with
    | nil => exact .unit (.inr hphrases)
    | cons c rest =>
      have hmem : c ∈ n.phrases := hphrases ▸ List.mem_cons_self
      have hsize : c.size < n.size := size_lt_of_mem_children (List.mem_filter.mp hmem).1
      exact .wrapper hkind hphrases c.unwraps_libraryUnit
termination_by n.size

theorem Unwraps.within {n u : Node} (h : n.Unwraps u) : u.Within n := by
  induction h with
  | unit => exact .root _
  | wrapper _ hc _ ih =>
    have hmem := List.mem_filter.mp (hc ▸ List.mem_cons_self)
    exact .inChild hmem.1 ih

end Node

end VhdlLowering
