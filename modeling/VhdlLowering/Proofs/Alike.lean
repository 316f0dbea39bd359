import VhdlLowering.Proofs.Likeness

/-!
# Differences that are not read

Tokens, wrappers around single phrases, and texts that are not kept may come and go without a trace.
Two trees that differ in nothing else read alike, so they are lowered alike.
-/

namespace VhdlLowering

namespace Kind

/-- Tokens among the children of such a node are passed over. The items of a package are the
exception: a token there is an item. -/
def passesTokens : Kind → Bool
  | .rule r => r ≠ .packageDeclarativePart
  | .other _ => false

/-- Among the children of such a node wrappers may be put up. -/
def takesWrappers : Kind → Bool
  | .rule .packageDeclarativePart | .rule .designFile | .rule .designUnit | .rule .genericClause
  | .rule .portClause | .rule .formalParameterList | .rule .interfaceList
  | .rule .interfaceElement | .rule .interfaceDeclaration | .rule .interfaceObjectDeclaration =>
    true
  | _ => false

theorem isGroup_of_takesWrappers {k : Kind} (h : k.takesWrappers = true) : k.isGroup = true := by
  unfold takesWrappers at h
  split at h <;> first | rfl | cases h

theorem takesWrappers_of_isClause {k : Kind} (h : k.isClause = true) : k.takesWrappers = true := by
  unfold isClause at h
  split at h <;> first | rfl | cases h

theorem takesWrappers_of_isInterfaceWrapper {k : Kind} (h : k.isInterfaceWrapper = true) :
    k.takesWrappers = true := by
  unfold isInterfaceWrapper at h
  split at h <;> first | rfl | cases h

theorem isGroup_of_isUnitWrapper {k : Kind} (h : Node.isUnitWrapper k = true) :
    k.isGroup = true := by
  simp only [Node.isUnitWrapper, Bool.or_eq_true, decide_eq_true_eq] at h
  rcases h with (rfl | rfl) | rfl <;> rfl

end Kind

namespace Node

/-- Besides the phrase the node holds nothing but tokens. -/
def HoldsOnly (w c : Node) : Prop :=
  ∃ before after, w.children = before ++ c :: after ∧ ∀ t ∈ before ++ after, t.isToken = true

/-- A node that may stand in the place of one of the children of its parent, around that child. -/
inductive Wraps (parent c w : Node) : Prop
  /-- A declaration among the items of a package. -/
  | item (hparent : parent.kind = .rule .packageDeclarativePart)
      (hw : w.kind = .rule .packageDeclarativeItem) (hc : ∃ r ∈ Rule.declarations, c.kind = .rule r)
      (honly : w.HoldsOnly c)
  /-- A library unit. -/
  | unit (hparent : parent.kind = .rule .designFile ∨ parent.kind = .rule .designUnit)
      (hw : isUnitWrapper w.kind = true) (htoken : c.isToken = false)
      (hunit : c.kind ≠ .rule .designUnit) (hcontext : c.kind.isContext = false)
      (honly : w.HoldsOnly c)
  /-- A phrase of an interface clause that is no part of an object declaration. -/
  | interface (hparent : parent.kind.isClause = true ∨ parent.kind.isInterfaceWrapper = true)
      (hw : w.kind.isInterfaceWrapper = true) (htoken : c.isToken = false)
      (hpart : ∀ r ∈ [Rule.identifierList, .identifier, .mode, .subtypeIndication],
        c.kind ≠ .rule r)
      (hvalue : c.kind = .rule .expression → parent.declaresInterface = false)
      (honly : w.HoldsOnly c)

/-- Children of a parent that read alike one by one; tokens may be missing and wrappers added. -/
inductive AlikeChildren (R : Node → Node → Prop) : List Node → List Node → Node → Prop
  | nil {parent : Node} : AlikeChildren R [] [] parent
  | like {parent c d : Node} {cs ds : List Node} (h : R c d) (hs : AlikeChildren R cs ds parent) :
      AlikeChildren R (c :: cs) (d :: ds) parent
  | token {parent c : Node} {cs ds : List Node} (hparent : parent.kind.passesTokens = true)
      (htoken : c.isToken = true) (hs : AlikeChildren R cs ds parent) :
      AlikeChildren R (c :: cs) ds parent
  | wrapper {parent c w : Node} {cs ds : List Node} (h : Wraps parent c w)
      (hs : AlikeChildren R cs ds parent) : AlikeChildren R (c :: cs) (w :: ds) parent

/-- The second tree may lack tokens of the first one, may have more wrappers, and may have other
texts where the text is not kept. -/
inductive Alike : Node → Node → Prop
  | intro {m n : Node} (head : m.SameHead n)
      (text : m.kind.isText = true → m.sourceText = n.sourceText)
      (children : AlikeChildren Alike m.children n.children m) : Alike m n

namespace Alike

variable {m n : Node}

theorem head (h : Alike m n) : m.SameHead n := by
  cases h with
  | intro head _ _ => exact head

theorem text (h : Alike m n) : m.kind.isText = true → m.sourceText = n.sourceText := by
  cases h with
  | intro _ text _ => exact text

theorem children (h : Alike m n) : AlikeChildren Alike m.children n.children m := by
  cases h with
  | intro _ _ children => exact children

end Alike

mutual

theorem Alike.refl : ∀ n : Node, Alike n n
  | ⟨_, _, _, cs⟩ => ⟨⟨rfl, rfl⟩, fun _ => rfl, AlikeChildren.refl _ cs⟩

theorem AlikeChildren.refl (parent : Node) : ∀ cs : List Node, AlikeChildren Alike cs cs parent
  | [] => .nil
  | c :: cs => .like (Alike.refl c) (AlikeChildren.refl parent cs)

end

namespace HoldsOnly

variable {w c : Node}

/-- Of the children of a wrapper only the phrase has a known kind. -/
theorem childrenOf (h : w.HoldsOnly c) (r : Rule) :
    w.childrenOf (.rule r) = if c.kind = .rule r then [c] else [] := by
  obtain ⟨before, after, hw, htokens⟩ := h
  have hnone {ts : List Node} (h : ∀ t ∈ ts, t.isToken = true) :
      ts.filter (fun t => t.kind = .rule r) = [] := by
    refine List.filter_eq_nil_iff.mpr fun t ht hk => ?_
    have htoken := h t ht
    rw [isToken, of_decide_eq_true hk] at htoken
    cases htoken
  rw [Node.childrenOf, hw, List.filter_append, List.filter_cons,
    hnone fun t ht => htokens t (List.mem_append_left _ ht),
    hnone fun t ht => htokens t (List.mem_append_right _ ht)]
  simp only [decide_eq_true_eq, List.nil_append]

theorem phrases (h : w.HoldsOnly c) (htoken : c.isToken = false) : w.phrases = [c] := by
  obtain ⟨before, after, hw, htokens⟩ := h
  have hnone {ts : List Node} (h : ∀ t ∈ ts, t.isToken = true) :
      ts.filter (fun t => !t.isToken) = [] :=
    List.filter_eq_nil_iff.mpr fun t ht => by simp [h t ht]
  rw [Node.phrases, hw, List.filter_append, List.filter_cons,
    hnone fun t ht => htokens t (List.mem_append_left _ ht),
    hnone fun t ht => htokens t (List.mem_append_right _ ht), htoken]
  rfl

end HoldsOnly

theorem isToken_of_rule {n : Node} {r : Rule} (h : n.kind = .rule r) : n.isToken = false := by
  rw [isToken, h, Kind.isTokenName_rule, Bool.false_and]

namespace Wraps

variable {parent c w : Node}

theorem honly (h : Wraps parent c w) : w.HoldsOnly c := by
  cases h <;> assumption

theorem takesWrappers (h : Wraps parent c w) : parent.kind.takesWrappers = true := by
  cases h with
  | item hparent => exact hparent ▸ rfl
  | unit hparent => rcases hparent with hparent | hparent <;> exact hparent ▸ rfl
  | interface hparent =>
    exact hparent.elim Kind.takesWrappers_of_isClause Kind.takesWrappers_of_isInterfaceWrapper

theorem isGroup (h : Wraps parent c w) : w.kind.isGroup = true := by
  cases h with
  | item _ hw => exact hw ▸ rfl
  | unit _ hw => exact Kind.isGroup_of_isUnitWrapper hw
  | interface _ hw =>
    exact Kind.isGroup_of_takesWrappers (Kind.takesWrappers_of_isInterfaceWrapper hw)

theorem isToken (h : Wraps parent c w) : c.isToken = false ∧ w.isToken = false := by
  have hw : w.isToken = false := by
    have hgroup := h.isGroup
    match hk : w.kind with
    | .rule r => exact isToken_of_rule hk
    | .other s =>
      rw [hk] at hgroup
      cases hgroup
  cases h with
  | item _ _ hc =>
    obtain ⟨r, -, hc⟩ := hc
    exact ⟨isToken_of_rule hc, hw⟩
  | unit _ _ htoken | interface _ _ htoken => exact ⟨htoken, hw⟩

/-- Neither the phrase nor its wrapper is one of the parts by which an object is known. -/
theorem kind_ne_part (h : Wraps parent c w) (hparent : parent.kind.isInterfaceWrapper = true)
    {r : Rule} (hr : r ∈ [Rule.identifierList, .identifier, .mode, .subtypeIndication]) :
    c.kind ≠ .rule r ∧ w.kind ≠ .rule r := by
  cases h with
  | item hpart =>
    rw [hpart] at hparent
    cases hparent
  | unit hfile =>
    rcases hfile with hfile | hfile <;> rw [hfile] at hparent <;> cases hparent
  | interface _ hw _ hpart =>
    refine ⟨hpart r hr, fun hk => ?_⟩
    rw [hk] at hw
    simp only [List.mem_cons, List.not_mem_nil, or_false] at hr
    rcases hr with rfl | rfl | rfl | rfl <;> cases hw

/-- Neither the phrase nor its wrapper is looked up in the parent. -/
theorem kind_ne_of_looksUp (h : Wraps parent c w) {r : Rule} (hr : parent.LooksUp r) :
    c.kind ≠ .rule r ∧ w.kind ≠ .rule r := by
  have hparent := Kind.isGroup_of_takesWrappers h.takesWrappers
  rcases hr with hgroup | ⟨hobject, hr⟩
  · cases hparent.symm.trans hgroup
  · have hwrapper : parent.kind.isInterfaceWrapper = true := by
      rw [declaresInterface, Bool.or_eq_true, Bool.and_eq_true] at hobject
      refine hobject.elim (fun hk => ?_) And.left
      cases hparent.symm.trans (Kind.isGroup_of_isInterfaceObject hk)
    by_cases hvalue : r = .expression
    · subst hvalue
      cases h with
      | item hparent =>
        rw [hparent] at hwrapper
        cases hwrapper
      | unit hparent =>
        rcases hparent with hparent | hparent <;> rw [hparent] at hwrapper <;> cases hwrapper
      | interface _ hw _ _ hvalue =>
        refine ⟨fun hk => ?_, fun hk => ?_⟩
        · cases hobject.symm.trans (hvalue hk)
        · rw [hk] at hw
          cases hw
    · refine h.kind_ne_part hwrapper ?_
      simpa [Rule.objectParts, hvalue] using hr

end Wraps

namespace AlikeChildren

variable {parent : Node} {cs ds : List Node}

/-- Children of a kind of which no wrapper is put up or taken down. -/
theorem filter_kind {r : Rule} (h : AlikeChildren Alike cs ds parent)
    (hr : ∀ c w, Wraps parent c w → c.kind ≠ .rule r ∧ w.kind ≠ .rule r) :
    List.Forall₂ Alike (cs.filter fun c => c.kind = .rule r)
      (ds.filter fun d => d.kind = .rule r) := by
  induction h with
  | nil => exact .nil
  | like hcd _ ih =>
    rw [List.filter_cons, List.filter_cons, ← hcd.head.kind]
    split
    · exact .cons hcd (ih hr)
    · exact ih hr
  | @token parent c cs ds _ htoken _ ih =>
    have hc : c.kind ≠ .rule r := fun hk => by
      rw [isToken_of_rule hk] at htoken
      cases htoken
    rw [List.filter_cons_of_neg (by simpa using hc)]
    exact ih hr
  | wrapper hw _ ih =>
    obtain ⟨hc, hw⟩ := hr _ _ hw
    rw [List.filter_cons_of_neg (by simpa using hc), List.filter_cons_of_neg (by simpa using hw)]
    exact ih hr

theorem length_eq (h : AlikeChildren Alike cs ds parent)
    (hparent : parent.kind.passesTokens = false) : cs.length = ds.length := by
  induction h with
  | nil => rfl
  | like _ _ ih | wrapper _ _ ih => exact congrArg (· + 1) (ih hparent)
  | token h => cases hparent.symm.trans h

end AlikeChildren

namespace Alike

variable {m n : Node}

theorem isToken (h : Alike m n) : m.isToken = n.isToken := by
  rw [Node.isToken, Node.isToken, ← h.head.kind]
  match hk : m.kind with
  | .rule r => rfl
  | .other s =>
    have hlength := h.children.length_eq (hk ▸ rfl)
    have hempty : m.children.isEmpty = n.children.isEmpty := by
      rw [Bool.eq_iff_iff, List.isEmpty_iff_length_eq_zero, List.isEmpty_iff_length_eq_zero,
        hlength]
    rw [hempty]

theorem phrases (h : Alike m n) :
    List.Forall₂ (fun c d => Alike c d ∨ Wraps m c d) m.phrases n.phrases := by
  have hfilter {cs ds : List Node} {parent : Node} (h : AlikeChildren Alike cs ds parent) :
      List.Forall₂ (fun c d => Alike c d ∨ Wraps parent c d) (cs.filter fun c => !c.isToken)
        (ds.filter fun d => !d.isToken) := by
    induction h with
    | nil => exact .nil
    | like hcd _ ih =>
      rw [List.filter_cons, List.filter_cons, ← hcd.isToken]
      split
      · exact .cons (.inl hcd) ih
      · exact ih
    | token _ htoken _ ih =>
      rw [List.filter_cons_of_neg (by simp [htoken])]
      exact ih
    | wrapper hw _ ih =>
      obtain ⟨hc, hd⟩ := hw.isToken
      rw [List.filter_cons_of_pos (by simp [hc]), List.filter_cons_of_pos (by simp [hd])]
      exact .cons (.inr hw) ih
  exact hfilter h.children

theorem childrenOf (h : Alike m n) {r : Rule}
    (hr : ∀ c w, Wraps m c w → c.kind ≠ .rule r ∧ w.kind ≠ .rule r) :
    List.Forall₂ Alike (m.childrenOf (.rule r)) (n.childrenOf (.rule r)) :=
  h.children.filter_kind hr

theorem child? (h : Alike m n) {r : Rule}
    (hr : ∀ c w, Wraps m c w → c.kind ≠ .rule r ∧ w.kind ≠ .rule r) :
    Option.Rel Alike (m.child? (.rule r)) (n.child? (.rule r)) :=
  rel_child?_of_childrenOf (h.childrenOf hr)

/-- Where no wrappers are put up all children are related. -/
theorem child?_of_not_takesWrappers (h : Alike m n) (hk : m.kind.takesWrappers = false)
    (r : Rule) : Option.Rel Alike (m.child? (.rule r)) (n.child? (.rule r)) := by
  refine h.child? fun c w hw => ?_
  cases hk.symm.trans hw.takesWrappers

theorem phrases_of_not_takesWrappers (h : Alike m n) (hk : m.kind.takesWrappers = false) :
    List.Forall₂ Alike m.phrases n.phrases := by
  refine h.phrases.imp fun c d hcd => hcd.resolve_right fun hw => ?_
  cases hk.symm.trans hw.takesWrappers

theorem declaresInterface (h : Alike m n) : m.declaresInterface = n.declaresInterface := by
  rw [Node.declaresInterface, Node.declaresInterface, ← h.head.kind]
  cases hwrapper : m.kind.isInterfaceWrapper with
  | false => simp only [Bool.false_and]
  | true =>
    have hpart (r : Rule) (hr : r ∈ [Rule.identifierList, .identifier, .mode, .subtypeIndication]) :
        (m.child? (.rule r)).isSome = (n.child? (.rule r)).isSome := by
      generalize m.child? (.rule r) = c, n.child? (.rule r) = d,
        h.child? (fun c w hw => hw.kind_ne_part hwrapper hr) = hchild
      cases hchild <;> rfl
    simp only [hasObjectParts, List.any_cons, List.any_nil, hpart .identifierList (by decide),
      hpart .identifier (by decide), hpart .mode (by decide), hpart .subtypeIndication (by decide)]

end Alike

theorem findAmong?_tokens {ts : List Node} (r : Rule) (h : ∀ t ∈ ts, t.isToken = true) :
    findAmong? (.rule r) ts = none := by
  induction ts with
  | nil => rfl
  | cons t ts ih =>
    obtain ⟨htoken, hts⟩ := List.forall_mem_cons.mp h
    rw [Node.isToken, Bool.and_eq_true, List.isEmpty_iff] at htoken
    have hk : t.kind ≠ .rule r := fun hk => by
      rw [hk] at htoken
      cases htoken.1
    rw [findAmong?, if_neg hk, findDescendant?_eq, htoken.2, ih hts]
    rfl

/-- A wrapper is passed through on the way to what is in it. -/
theorem HoldsOnly.findDescendant? {w c : Node} (h : w.HoldsOnly c) (r : Rule) :
    w.findDescendant? (.rule r) = findAmong? (.rule r) [c] := by
  obtain ⟨before, after, hw, htokens⟩ := h
  rw [findDescendant?_eq, hw, findAmong?_append, ← List.singleton_append, findAmong?_append,
    findAmong?_tokens r fun t ht => htokens t (List.mem_append_left _ ht),
    findAmong?_tokens r fun t ht => htokens t (List.mem_append_right _ ht), Option.none_or,
    Option.or_none]

theorem rel_or {R : Node → Node → Prop} {a b a' b' : Option Node} (h : Option.Rel R a b)
    (h' : Option.Rel R a' b') : Option.Rel R (a.or a') (b.or b') := by
  cases h with
  | none => exact h'
  | some h => exact .some h

theorem AlikeChildren.enumeration {parent : Node} {cs ds : List Node}
    (h : AlikeChildren Alike cs ds parent)
    (hbelow : ∀ c ∈ cs, ∀ d, Alike c d → Option.Rel Alike
      (c.findDescendant? (.rule .enumerationTypeDefinition))
      (d.findDescendant? (.rule .enumerationTypeDefinition))) :
    Option.Rel Alike (findAmong? (.rule .enumerationTypeDefinition) cs)
      (findAmong? (.rule .enumerationTypeDefinition) ds) := by
  induction h with
  | nil => exact .none
  | like hcd _ ih =>
    obtain ⟨hc, hcs⟩ := List.forall_mem_cons.mp hbelow
    rw [findAmong?, findAmong?, ← hcd.head.kind]
    split
    · exact .some hcd
    · exact rel_or (hc _ hcd) (ih hcs)
  | @token _ c cs _ _ htoken _ ih =>
    have hnone : findAmong? (.rule .enumerationTypeDefinition) [c] = none :=
      findAmong?_tokens _ (by simpa using htoken)
    rw [← List.singleton_append, findAmong?_append, hnone, Option.none_or]
    exact ih (List.forall_mem_cons.mp hbelow).2
  | @wrapper _ c w cs ds hw _ ih =>
    have hk : w.kind ≠ .rule .enumerationTypeDefinition := fun hk => by
      have hgroup := hw.isGroup
      rw [hk] at hgroup
      cases hgroup
    have hrefl (o : Option Node) : Option.Rel Alike o o := by
      cases o with
      | none => exact .none
      | some c => exact .some (Alike.refl c)
    have hwrapper : findAmong? (.rule .enumerationTypeDefinition) (w :: ds) =
        (findAmong? (.rule .enumerationTypeDefinition) [c]).or
          (findAmong? (.rule .enumerationTypeDefinition) ds) := by
      rw [findAmong?, if_neg hk, hw.honly.findDescendant?]
    rw [hwrapper, ← List.singleton_append, findAmong?_append]
    exact rel_or (hrefl _) (ih (List.forall_mem_cons.mp hbelow).2)

theorem Alike.enumeration {m n : Node} (h : Alike m n) :
    Option.Rel Alike (m.findDescendant? (.rule .enumerationTypeDefinition))
      (n.findDescendant? (.rule .enumerationTypeDefinition)) := by
  rw [findDescendant?_eq, findDescendant?_eq]
  refine h.children.enumeration fun c hc d hcd => ?_
  have hsize := size_lt_of_mem_children hc
  exact hcd.enumeration
termination_by m.size

/-- What a phrase of an interface clause adds to the items of the clause. -/
def clauseItems (c : Node) : List InterfaceItem :=
  if c.declaresInterface then [.object c]
  else if c.kind.isInterfaceWrapper then c.interfaceItems
  else [.other c]

theorem interfaceItems_eq_flatMap (n : Node) : n.interfaceItems = n.phrases.flatMap clauseItems :=
  n.interfaceItems_eq

/-- A wrapper around a phrase adds what the phrase adds. -/
theorem Wraps.clauseItems_eq {parent c w : Node} (h : Wraps parent c w)
    (hk : parent.kind.isClause = true ∨ parent.kind.isInterfaceWrapper = true) :
    w.clauseItems = c.clauseItems := by
  cases h with
  | item hparent =>
    rw [hparent] at hk
    rcases hk with hk | hk <;> cases hk
  | unit hparent =>
    rcases hparent with hparent | hparent <;> rw [hparent] at hk <;> rcases hk with hk | hk <;>
      cases hk
  | interface _ hw htoken hpart _ honly =>
    have hparts : w.hasObjectParts = false := by
      refine List.any_eq_false.mpr fun r hr => ?_
      rw [child?_eq_head?, honly.childrenOf, if_neg (hpart r hr)]
      exact Bool.false_ne_true
    have hobject : w.kind.isInterfaceObject = false := by
      rw [Bool.eq_false_iff]
      intro hobject
      have hgroup :=
        Kind.isGroup_of_takesWrappers (Kind.takesWrappers_of_isInterfaceWrapper hw)
      cases hgroup.symm.trans (Kind.isGroup_of_isInterfaceObject hobject)
    have hdeclares : ¬w.declaresInterface = true := by
      rw [declaresInterface, hobject, hparts, Bool.and_false]
      exact Bool.false_ne_true
    rw [clauseItems, if_neg hdeclares, if_pos hw, interfaceItems_eq_flatMap,
      honly.phrases htoken, List.flatMap_singleton]

theorem Alike.interfaceItems {m n : Node} (h : Alike m n)
    (hk : m.kind.isClause = true ∨ m.kind.isInterfaceWrapper = true) :
    List.Forall₂ (InterfaceItem.Alike Alike) m.interfaceItems n.interfaceItems := by
  have hlike {c d : Node} (hsize : c.size < m.size) (hcd : Alike c d) :
      List.Forall₂ (InterfaceItem.Alike Alike) c.clauseItems d.clauseItems := by
    rw [clauseItems, clauseItems, ← hcd.declaresInterface, ← hcd.head.kind]
    split
    · rename_i hobject
      exact .cons (.object hcd hobject) .nil
    · split
      · rename_i hwrapper
        exact hcd.interfaceItems (.inr hwrapper)
      · exact .cons (.other hcd.head) .nil
  have hphrases : List.Forall₂
      (fun c d => List.Forall₂ (InterfaceItem.Alike Alike) c.clauseItems d.clauseItems)
      m.phrases n.phrases := by
    have hsize (c : Node) (hc : c ∈ m.phrases) : c.size < m.size :=
      size_lt_of_mem_children (List.mem_filter.mp hc).1
    refine ((List.forall₂_and_left _ _).mpr ⟨hsize, h.phrases⟩).imp ?_
    intro c d hcd
    obtain ⟨hsize, hcd | hw⟩ := hcd
    · exact hlike hsize hcd
    · rw [hw.clauseItems_eq hk]
      exact hlike hsize (.refl c)
  rw [interfaceItems_eq_flatMap, interfaceItems_eq_flatMap]
  exact List.rel_flatMap hphrases fun _ _ h => h
termination_by m.size

theorem takesWrappers_of_isUnitWrapper {k : Kind} (h : isUnitWrapper k = true) :
    k.takesWrappers = false := by
  simp only [isUnitWrapper, Bool.or_eq_true, decide_eq_true_eq] at h
  rcases h with (rfl | rfl) | rfl <;> rfl

theorem isContext_of_isUnitWrapper {k : Kind} (h : isUnitWrapper k = true) :
    k.isContext = false := by
  simp only [isUnitWrapper, Bool.or_eq_true, decide_eq_true_eq] at h
  rcases h with (rfl | rfl) | rfl <;> rfl

theorem Alike.libraryUnit {m n : Node} (h : Alike m n) : Alike m.libraryUnit n.libraryUnit := by
  rw [libraryUnit_eq m, libraryUnit_eq n, ← h.head.kind]
  split
  · rename_i hwrapper
    have hphrases := h.phrases_of_not_takesWrappers (takesWrappers_of_isUnitWrapper hwrapper)
    have hsize (c : Node) (hc : c ∈ m.phrases) : c.size < m.size :=
      size_lt_of_mem_children (List.mem_filter.mp hc).1
    generalize m.phrases = cs, n.phrases = ds at hphrases hsize
    cases hphrases with
    | nil => exact h
    | cons hcd =>
      have hc := hsize _ List.mem_cons_self
      exact hcd.libraryUnit
  · exact h
termination_by m.size

theorem Alike.part {p q : Node} (h : Alike p q) : DesignFile.PartAlike Alike p q := by
  by_cases hclause : p.kind = .rule .contextClause
  · have hphrases := h.phrases_of_not_takesWrappers (hclause ▸ rfl)
    exact .contextClause hclause (h.head.kind ▸ hclause) (hphrases.imp fun _ _ hcd => hcd.head)
  · by_cases hitem : p.kind = .rule .contextItem ∨ p.kind = .rule .libraryClause ∨
        p.kind = .rule .useClause
    · exact .contextItem hitem h.head
    · have hcontext : p.kind.isContext = false := by
        unfold Kind.isContext
        split <;> simp_all
      exact .unit hcontext (h.head.kind ▸ hcontext) h.libraryUnit.head fun _ => h.libraryUnit

theorem Wraps.part {parent c w : Node} (h : Wraps parent c w)
    (hk : parent.kind = .rule .designFile ∨ parent.kind = .rule .designUnit) :
    DesignFile.PartAlike Alike c w ∧ c.kind ≠ .rule .designUnit ∧ w.kind ≠ .rule .designUnit := by
  cases h with
  | item hparent => rcases hk with hk | hk <;> cases hparent.symm.trans hk
  | interface hparent =>
    rcases hk with hk | hk <;> rw [hk] at hparent <;> rcases hparent with h | h <;> cases h
  | unit _ hw htoken hunit hcontext honly =>
    have hlibrary : w.libraryUnit = c.libraryUnit := by
      rw [libraryUnit_eq w, if_pos hw, honly.phrases htoken]
      rfl
    refine ⟨.unit hcontext (isContext_of_isUnitWrapper hw) ?_ fun _ => ?_, hunit, fun hw' => ?_⟩
    · rw [hlibrary]
      exact ⟨rfl, rfl⟩
    · rw [hlibrary]
      exact .refl _
    · rw [hw'] at hw
      cases hw

theorem Alike.unitParts {m n : Node} (h : Alike m n) (hk : m.kind = .rule .designFile) :
    List.Forall₂ (DesignFile.PartAlike Alike) m.unitParts n.unitParts := by
  have hunits {p : Node} (hp : p.kind = .rule .designFile ∨ p.kind = .rule .designUnit)
      {c d : Node} (hcd : Alike c d ∨ Wraps p c d) : DesignFile.PartAlike Alike c d :=
    hcd.elim Alike.part fun hw => (hw.part hp).1
  rw [Node.unitParts, Node.unitParts]
  refine List.rel_flatMap h.phrases fun c d hcd => ?_
  by_cases hunit : c.kind = .rule .designUnit
  · rcases hcd with hcd | hw
    · rw [if_pos hunit, if_pos (hcd.head.kind ▸ hunit)]
      exact hcd.phrases.imp fun _ _ => hunits (.inr hunit)
    · exact absurd hunit (hw.part (.inl hk)).2.1
  · have hd : d.kind ≠ .rule .designUnit := by
      rcases hcd with hcd | hw
      · exact hcd.head.kind ▸ hunit
      · exact (hw.part (.inl hk)).2.2
    rw [if_neg hunit, if_neg hd]
    exact .cons (hunits (.inl hk) hcd) .nil

theorem Alike.headerReports {m n : Node} (h : Alike m n)
    (hk : m.kind = .rule .packageDeclaration) : m.headerReports = n.headerReports := by
  have hreport {a b : Option Node} (hab : Option.Rel Alike a b) (label : String) :
      a.map (Skipped.ofNode label) = b.map (Skipped.ofNode label) := by
    cases hab with
    | none => rfl
    | some hcd => rw [Option.map_some, Option.map_some, Skipped.ofNode, Skipped.ofNode,
        hcd.head.kind, hcd.head.span]
  rw [Node.headerReports, Node.headerReports]
  generalize hc : m.child? (.rule .packageHeader) = c, n.child? (.rule .packageHeader) = d,
    h.child?_of_not_takesWrappers (hk ▸ rfl) .packageHeader = hchild
  cases hchild with
  | none => rfl
  | some hcd =>
    have hheader := hcd.child?_of_not_takesWrappers (kind_of_child? hc ▸ rfl)
    simp only [hreport (hheader .genericClause), hreport (hheader .genericMapAspect)]

theorem Alike.bare {m n : Node} (h : Alike m n) :
    DeclarativeItem.Alike Alike (.bare m) (.bare n) :=
  ⟨congrArg Role.ofKind h.head.kind, h.head, fun _ => h⟩

theorem Alike.classify {m n : Node} (h : Alike m n) :
    DeclarativeItem.Alike Alike (.classify m) (.classify n) := by
  rw [DeclarativeItem.classify, DeclarativeItem.classify, ← h.head.kind]
  split
  · rename_i hk
    have hfound (rules : List Rule) :
        Option.Rel Alike (rules.findSome? fun r => m.child? (.rule r))
          (rules.findSome? fun r => n.child? (.rule r)) := by
      induction rules with
      | nil => exact .none
      | cons r rules ih =>
        rw [List.findSome?_cons, List.findSome?_cons]
        generalize m.child? (.rule r) = c, n.child? (.rule r) = d,
          h.child?_of_not_takesWrappers (hk ▸ rfl) r = hchild
        cases hchild with
        | none => exact ih
        | some hcd => exact .some hcd
    generalize Rule.declarations.findSome? (fun r => m.child? (.rule r)) = c,
      Rule.declarations.findSome? (fun r => n.child? (.rule r)) = d, hfound Rule.declarations = hcd
    cases hcd with
    | none => exact ⟨rfl, h.head, fun hu => absurd rfl (hu .other)⟩
    | some hcd => exact hcd.bare
  · exact h.bare

/-- A declaration in a wrapper is the same item as by itself. -/
theorem Wraps.classify_eq {parent c w : Node} (h : Wraps parent c w)
    (hk : parent.kind = .rule .packageDeclarativePart) :
    DeclarativeItem.classify w = DeclarativeItem.classify c := by
  cases h with
  | unit hparent => rcases hparent with hparent | hparent <;> cases hparent.symm.trans hk
  | interface hparent => rw [hk] at hparent; rcases hparent with h | h <;> cases h
  | item _ hw hc honly =>
    obtain ⟨r, hr, hc⟩ := hc
    have hfound (rules : List Rule) (hmem : r ∈ rules) :
        (rules.findSome? fun r => w.child? (.rule r)) = some c := by
      induction rules with
      | nil => cases hmem
      | cons s rules ih =>
        rw [List.findSome?_cons, child?_eq_head?, honly.childrenOf]
        by_cases hs : c.kind = .rule s
        · rw [if_pos hs]
          rfl
        · have hne : r ≠ s := fun hrs => hs (hrs ▸ hc)
          rw [if_neg hs]
          exact ih ((List.mem_cons.mp hmem).resolve_left hne)
    have hbare : c.kind ≠ .rule .packageDeclarativeItem := fun hitem => by
      cases hc.symm.trans hitem
      revert hr
      decide
    rw [DeclarativeItem.classify, if_pos hw, hfound _ hr, DeclarativeItem.classify, if_neg hbare]

theorem Alike.packageItems {m n : Node} (h : Alike m n)
    (hk : m.kind = .rule .packageDeclaration) :
    List.Forall₂ (fun c d => DeclarativeItem.Alike Alike (.classify c) (.classify d))
      m.packageItems n.packageItems := by
  have hitems {parent : Node} {cs ds : List Node} (hcs : AlikeChildren Alike cs ds parent)
      (hp : parent.kind = .rule .packageDeclarativePart) :
      List.Forall₂ (fun c d => DeclarativeItem.Alike Alike (.classify c) (.classify d)) cs ds := by
    induction hcs with
    | nil => exact .nil
    | like hcd _ ih => exact .cons hcd.classify (ih hp)
    | token htokens =>
      rw [hp] at htokens
      cases htokens
    | wrapper hw _ ih =>
      refine .cons ?_ (ih hp)
      rw [hw.classify_eq hp]
      exact (Alike.refl _).classify
  rw [Node.packageItems, Node.packageItems]
  generalize hc : m.child? (.rule .packageDeclarativePart) = c,
    n.child? (.rule .packageDeclarativePart) = d,
    h.child?_of_not_takesWrappers (hk ▸ rfl) .packageDeclarativePart = hchild
  cases hchild with
  | none => exact .nil
  | some hcd => exact hitems hcd.children (kind_of_child? hc)

/-- Trees that differ in nothing that is read are lowered alike. -/
theorem likeness_alike : Likeness Alike where
  head h := h.head
  text h := h.text
  childrenOf h _ hr := h.childrenOf fun _ _ hw => hw.kind_ne_of_looksUp hr
  enumeration h _ := h.enumeration
  interfaceItems h hk := h.interfaceItems (.inl hk)
  headerReports := Alike.headerReports
  packageItems := Alike.packageItems
  unitParts := Alike.unitParts

end Node
end VhdlLowering
