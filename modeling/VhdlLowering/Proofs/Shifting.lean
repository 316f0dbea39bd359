import VhdlLowering.Proofs.Subtrees

/-!
# Trees further on in a text

If a text is moved further on in its file, all spans of its tree move by the same distance and
nothing else changes. Whatever is looked up in the moved tree is what is looked up in the tree,
moved; lengths stay, also the length of a reversed span.
-/

namespace VhdlLowering

namespace Span

/-- The span moved on by a distance. -/
def shift (k : Nat) (s : Span) : Span :=
  ⟨.ofNat (s.start.toNat + k), .ofNat (s.stop.toNat + k)⟩

/-- The moved offsets are still words of 32 bits. -/
def Fits (k : Nat) (s : Span) : Prop :=
  s.start.toNat + k < UInt32.size ∧ s.stop.toNat + k < UInt32.size

instance (k : Nat) (s : Span) : Decidable (s.Fits k) :=
  inferInstanceAs (Decidable (_ ∧ _))

end Span

/-- The region moved on by a distance; it is as long as before. -/
def Region.shift (k : Nat) (r : Region) : Region := { r with offset := r.offset + k }

theorem Span.region_shift {k : Nat} {s : Span} (h : s.Fits k) :
    (s.shift k).region = s.region.shift k := by
  obtain ⟨hstart, hstop⟩ := h
  have hstart' : (UInt32.ofNat (s.start.toNat + k)).toNat = s.start.toNat + k :=
    UInt32.toNat_ofNat_of_lt' hstart
  have hstop' : (UInt32.ofNat (s.stop.toNat + k)).toNat = s.stop.toNat + k :=
    UInt32.toNat_ofNat_of_lt' hstop
  simp only [region, len, shift, Region.shift, hstart', hstop', Region.mk.injEq, true_and]
  omega

namespace Node

mutual

/-- The tree with all its spans moved on. -/
def shift (k : Nat) : Node → Node
  | ⟨kind, span, text, cs⟩ => ⟨kind, span.shift k, text, shiftAll k cs⟩

def shiftAll (k : Nat) : List Node → List Node
  | [] => []
  | c :: cs => c.shift k :: shiftAll k cs

end

/-- All spans of the tree can be moved on. -/
def Fits (k : Nat) (n : Node) : Prop := ∀ c : Node, c.Within n → c.span.Fits k

theorem Fits.within {k : Nat} {c n : Node} (h : n.Fits k) (hc : c.Within n) : c.Fits k :=
  fun d hd => h d (hd.trans hc)

theorem Fits.span {k : Nat} {n : Node} (h : n.Fits k) : n.span.Fits k := h n (.root n)

theorem Fits.child? {k : Nat} {c n : Node} {kind : Kind} (h : n.Fits k)
    (hc : n.child? kind = some c) : c.Fits k :=
  h.within (within_of_child? hc)

theorem fits_mk {k : Nat} {kind : Kind} {span : Span} {text : String} {cs : List Node} :
    Fits k ⟨kind, span, text, cs⟩ ↔ span.Fits k ∧ ∀ c ∈ cs, c.Fits k := by
  constructor
  · intro h
    exact ⟨h.span, fun c hc => h.within (within_of_child hc)⟩
  · intro h c hc
    cases hc with
    | root => exact h.1
    | inChild hd hc => exact h.2 _ hd c hc

variable (k : Nat) (n : Node)

theorem shiftAll_eq_map (cs : List Node) : shiftAll k cs = cs.map (shift k) := by
  induction cs with
  | nil => rfl
  | cons c cs ih => simp [shiftAll, ih]

@[simp] theorem kind_shift : (n.shift k).kind = n.kind := by
  cases n
  rfl

@[simp] theorem span_shift : (n.shift k).span = n.span.shift k := by
  cases n
  rfl

@[simp] theorem text_shift : (n.shift k).text = n.text := by
  cases n
  rfl

@[simp] theorem children_shift : (n.shift k).children = n.children.map (shift k) := by
  cases n
  exact shiftAll_eq_map k _

@[simp] theorem isToken_shift : (n.shift k).isToken = n.isToken := by
  simp [isToken]

@[simp] theorem phrases_shift : (n.shift k).phrases = n.phrases.map (shift k) := by
  simp [phrases, List.filter_map, Function.comp_def]

@[simp] theorem child?_shift (kind : Kind) :
    (n.shift k).child? kind = (n.child? kind).map (shift k) := by
  have hkind : (fun c : Node => decide (c.kind = kind)) ∘ shift k =
      fun c : Node => decide (c.kind = kind) :=
    funext fun c => by rw [Function.comp_apply, kind_shift]
  rw [child?, child?, children_shift, List.find?_map, hkind]

@[simp] theorem childrenOf_shift (kind : Kind) :
    (n.shift k).childrenOf kind = (n.childrenOf kind).map (shift k) := by
  simp [childrenOf, List.filter_map, Function.comp_def]

mutual

theorem findDescendant?_shift (kind : Kind) : ∀ n : Node,
    (n.shift k).findDescendant? kind = (n.findDescendant? kind).map (shift k)
  | ⟨_, _, _, cs⟩ => findAmong?_shiftAll kind cs

theorem findAmong?_shiftAll (kind : Kind) : ∀ cs : List Node,
    findAmong? kind (shiftAll k cs) = (findAmong? kind cs).map (shift k)
  | [] => rfl
  | c :: cs => by
    rw [shiftAll, findAmong?, findAmong?, kind_shift, findDescendant?_shift kind c,
      findAmong?_shiftAll kind cs]
    split
    · rfl
    · cases c.findDescendant? kind <;> simp

end

mutual

theorem leafTexts_shift : ∀ n : Node, (n.shift k).leafTexts = n.leafTexts
  | ⟨_, _, _, []⟩ => rfl
  | ⟨_, _, _, c :: cs⟩ => by
    rw [shift, leafTexts, leafTexts]
    exact leafTextsOf_shiftAll (c :: cs)

theorem leafTextsOf_shiftAll : ∀ cs : List Node, leafTextsOf (shiftAll k cs) = leafTextsOf cs
  | [] => rfl
  | c :: cs => by
    rw [shiftAll, leafTextsOf, leafTextsOf, leafTexts_shift c, leafTextsOf_shiftAll cs]

end

@[simp] theorem sourceText_shift : (n.shift k).sourceText = n.sourceText := by
  simp [sourceText, trimmedText, leafTexts_shift]

@[simp] theorem declaresInterface_shift :
    (n.shift k).declaresInterface = n.declaresInterface := by
  simp [declaresInterface, hasObjectParts]

/-- What a walk through a clause comes upon, moved on. -/
def moveItem (k : Nat) : InterfaceItem → InterfaceItem
  | .object n => .object (n.shift k)
  | .other n => .other (n.shift k)

mutual

theorem interfaceItems_shift : ∀ n : Node,
    (n.shift k).interfaceItems = n.interfaceItems.map (moveItem k)
  | ⟨_, _, _, cs⟩ => interfaceItemsAmong_shiftAll cs

theorem interfaceItemsAmong_shiftAll : ∀ cs : List Node,
    interfaceItemsAmong (shiftAll k cs) = (interfaceItemsAmong cs).map (moveItem k)
  | [] => rfl
  | c :: cs => by
    rw [shiftAll, interfaceItemsAmong, interfaceItemsAmong, interfaceItemsAmong_shiftAll cs,
      interfaceItems_shift c, List.map_append]
    congr 1
    cases htoken : c.isToken <;> cases hobject : c.declaresInterface <;>
      cases hwrapper : c.kind.isInterfaceWrapper <;> simp [htoken, hobject, hwrapper, moveItem]

end

theorem filterMap_other?_moveItem (items : List InterfaceItem) :
    (items.map (moveItem k)).filterMap InterfaceItem.other? =
      (items.filterMap InterfaceItem.other?).map (shift k) := by
  induction items with
  | nil => rfl
  | cons item items ih =>
    cases item <;> simp [moveItem, InterfaceItem.other?, ih, List.filterMap_cons]

@[simp] theorem typeParts_shift : (n.shift k).typeParts = n.typeParts.shift k := by
  unfold typeParts
  cases hfull : n.child? (.rule .fullTypeDeclaration) <;>
    cases hincomplete : n.child? (.rule .incompleteTypeDeclaration) <;> simp [hfull, hincomplete]

@[simp] theorem identifiers_shift : (n.shift k).identifiers = n.identifiers.map (shift k) := by
  unfold identifiers
  cases hlist : n.child? (.rule .identifierList) <;> simp [hlist]

@[simp] theorem literals_shift : (n.shift k).literals = n.literals.map (shift k) := by
  unfold literals
  rw [childrenOf_shift, childrenOf_shift]
  cases n.childrenOf (.rule .enumerationLiteral) <;> rfl

@[simp] theorem packageItems_shift : (n.shift k).packageItems = n.packageItems.map (shift k) := by
  unfold packageItems
  cases hpart : n.child? (.rule .packageDeclarativePart) <;> simp [hpart]

theorem classify_shift : DeclarativeItem.classify (n.shift k) =
    ⟨(DeclarativeItem.classify n).role, (DeclarativeItem.classify n).node.shift k⟩ := by
  have hfound : (Rule.declarations.findSome? fun r => (n.shift k).child? (.rule r)) =
      (Rule.declarations.findSome? fun r => n.child? (.rule r)).map (shift k) := by
    simp [List.map_findSome?, Function.comp_def]
  unfold DeclarativeItem.classify
  rw [hfound, kind_shift]
  split
  · cases Rule.declarations.findSome? fun r => n.child? (.rule r) <;>
      simp [DeclarativeItem.bare]
  · simp [DeclarativeItem.bare]

@[simp] theorem unitParts_shift : (n.shift k).unitParts = n.unitParts.map (shift k) := by
  simp only [unitParts, phrases_shift, List.flatMap_map, List.map_flatMap, kind_shift]
  congr 1
  funext u
  split <;> rfl

mutual

theorem libraryUnit_shift : ∀ n : Node, (n.shift k).libraryUnit = n.libraryUnit.shift k
  | ⟨kind, span, text, cs⟩ => by
    rw [shift, libraryUnit, libraryUnit, libraryUnitAmong_shiftAll cs]
    cases isUnitWrapper kind <;> cases libraryUnitAmong cs <;> rfl

theorem libraryUnitAmong_shiftAll : ∀ cs : List Node,
    libraryUnitAmong (shiftAll k cs) = (libraryUnitAmong cs).map (shift k)
  | [] => rfl
  | c :: cs => by
    rw [shiftAll, libraryUnitAmong, libraryUnitAmong, isToken_shift, libraryUnit_shift c,
      libraryUnitAmong_shiftAll cs]
    cases c.isToken <;> rfl

end

end Node
end VhdlLowering
