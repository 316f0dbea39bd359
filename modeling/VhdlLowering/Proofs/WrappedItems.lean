import Mathlib.Data.List.Basic
import Mathlib.Logic.Relation
import VhdlLowering.Lowering.Classification

/-!
# Declarations in wrappers

Of the declarations in a wrapper one leads: the leftmost one of the rule that is listed first. The
wrapper is classified as the leading declaration is by itself. Nothing else in the wrapper matters,
and neither does the order of declarations of different rules.
-/

namespace VhdlLowering

namespace Kind

/-- The label of a declaration. -/
def IsDeclaration (k : Kind) : Prop := ∃ r ∈ Rule.declarations, k = .rule r

instance (k : Kind) : Decidable k.IsDeclaration :=
  inferInstanceAs (Decidable (∃ r ∈ Rule.declarations, k = .rule r))

/-- The place of a label in the list of declarations; labels that are not listed come last. -/
def rank (k : Kind) : Nat := (Rule.declarations.map Kind.rule).idxOf k

theorem isDeclaration_iff_mem {k : Kind} :
    k.IsDeclaration ↔ k ∈ Rule.declarations.map Kind.rule := by
  simp [IsDeclaration, eq_comm]

theorem not_isDeclaration_wrapper : ¬(Kind.rule .packageDeclarativeItem).IsDeclaration := by
  decide

theorem not_isDeclaration_of_isTokenName {k : Kind} (h : k.isTokenName = true) :
    ¬k.IsDeclaration := by
  rintro ⟨r, -, rfl⟩
  cases h

theorem eq_of_rank_eq {j k : Kind} (hj : j.IsDeclaration) (h : j.rank = k.rank) : j = k :=
  (List.idxOf_inj (isDeclaration_iff_mem.mp hj)).mp h

end Kind

/-- The list of declarations and the table of roles agree on every label. -/
theorem Role.ofKind_eq_other_iff {k : Kind} :
    Role.ofKind k = .unsupported .other ↔ ¬k.IsDeclaration := by
  match k with
  | .rule r => cases r <;> decide
  | .other s =>
    refine iff_of_true rfl ?_
    rintro ⟨r, -, h⟩
    cases h

namespace Node

/-- Of the declarations among the children of a node, the leftmost one of the rule that is listed
first. -/
structure Leads (c n : Node) : Prop where
  declaration : c.kind.IsDeclaration
  leftmost : ∃ before after, n.children = before ++ c :: after ∧ ∀ b ∈ before, b.kind ≠ c.kind
  first : ∀ d ∈ n.children, d.kind.IsDeclaration → c.kind.rank ≤ d.kind.rank

variable {c d n : Node}

theorem Leads.mem (h : c.Leads n) : c ∈ n.children := by
  obtain ⟨before, after, hchildren, -⟩ := h.leftmost
  simp [hchildren]

theorem Leads.child? (h : c.Leads n) : n.child? c.kind = some c := by
  obtain ⟨before, after, hchildren, hbefore⟩ := h.leftmost
  exact List.find?_eq_some_iff_append.mpr
    ⟨by simp, before, after, hchildren, by simpa using hbefore⟩

/-- One declaration leads only. -/
theorem Leads.unique (hc : c.Leads n) (hd : d.Leads n) : c = d := by
  have hrank : c.kind.rank = d.kind.rank :=
    Nat.le_antisymm (hc.first d hd.mem hd.declaration) (hd.first c hc.mem hc.declaration)
  have hkind := Kind.eq_of_rank_eq hc.declaration hrank
  have hchild := hc.child?
  rw [hkind, hd.child?] at hchild
  exact (Option.some.inj hchild).symm

/-- What the search finds that goes through the rules in turn and takes the first child of one. -/
def leading? (n : Node) : Option Node := Rule.declarations.findSome? fun r => n.child? (.rule r)

theorem leads_of_leading? (h : n.leading? = some c) : c.Leads n := by
  obtain ⟨earlier, r, later, hrules, hr, hearlier⟩ := List.findSome?_eq_some_iff.mp h
  have hkind : c.kind = .rule r := kind_of_child? hr
  obtain ⟨-, before, after, hchildren, hbefore⟩ := List.find?_eq_some_iff_append.mp hr
  have hlisted : Rule.declarations.map Kind.rule =
      earlier.map Kind.rule ++ (.rule r :: later.map Kind.rule) := by
    simp [hrules]
  -- No child is of a rule that is listed in front of the rule of `c`.
  have hnone : ∀ d ∈ n.children, d.kind ∉ earlier.map Kind.rule := by
    intro d hd hmem
    obtain ⟨s, hs, hkind⟩ := List.mem_map.mp hmem
    have hnot := List.find?_eq_none.mp (hearlier s hs) d hd
    exact hnot (by simp [hkind])
  refine ⟨⟨r, by simp [hrules], hkind⟩, ⟨before, after, hchildren, ?_⟩, fun d hd _ => ?_⟩
  · intro b hb
    rw [hkind]
    simpa using hbefore b hb
  · have hc : c.kind.rank = earlier.length := by
      rw [Kind.rank, hlisted, List.idxOf_append_of_notMem (hnone c (mem_children_of_child? hr)),
        hkind]
      simp
    rw [hc, Kind.rank, hlisted, List.idxOf_append_of_notMem (hnone d hd), List.length_map]
    exact Nat.le_add_right _ _

theorem leading?_eq_none_iff :
    n.leading? = none ↔ ∀ c ∈ n.children, ¬c.kind.IsDeclaration := by
  simp only [leading?, List.findSome?_eq_none_iff, Node.child?, List.find?_eq_none,
    decide_eq_true_eq, Kind.IsDeclaration, not_exists, not_and]
  exact ⟨fun h c hc r hr => h r hr c hc, fun h r hr c hc => h c hc r hr⟩

theorem exists_leads_iff : (∃ c : Node, c.Leads n) ↔ ∃ c ∈ n.children, c.kind.IsDeclaration := by
  refine ⟨fun ⟨c, hc⟩ => ⟨c, hc.mem, hc.declaration⟩, fun ⟨c, hc, hdeclaration⟩ => ?_⟩
  cases hfound : n.leading? with
  | none => exact absurd hdeclaration (leading?_eq_none_iff.mp hfound c hc)
  | some d => exact ⟨d, leads_of_leading? hfound⟩

theorem leading?_eq_some_iff : n.leading? = some c ↔ c.Leads n := by
  refine ⟨leads_of_leading?, fun h => ?_⟩
  cases hfound : n.leading? with
  | none => exact absurd h.declaration (leading?_eq_none_iff.mp hfound c h.mem)
  | some d => rw [(leads_of_leading? hfound).unique h]

theorem leading?_congr {m : Node}
    (h : ∀ k : Kind, k.IsDeclaration → m.child? k = n.child? k) : m.leading? = n.leading? := by
  rw [leading?, leading?, ← List.head?_filterMap, ← List.head?_filterMap,
    List.filterMap_congr fun r hr => h _ ⟨r, hr, rfl⟩]

/-- Children are put in that are no declarations, or the order of the children is changed, but not
among children of one kind. -/
inductive Rearranges : List Node → List Node → Prop
  | insert (before after : List Node) {c : Node} (hc : ¬c.kind.IsDeclaration) :
      Rearranges (before ++ after) (before ++ c :: after)
  | permute {cs ds : List Node} (hperm : cs.Perm ds)
      (hkinds : ∀ k : Kind, (cs.filter fun c => c.kind = k) = ds.filter fun c => c.kind = k) :
      Rearranges cs ds

theorem Rearranges.find?_eq {cs ds : List Node} (h : Rearranges cs ds) {k : Kind}
    (hk : k.IsDeclaration) : (cs.find? fun c => c.kind = k) = ds.find? fun c => c.kind = k := by
  cases h with
  | @insert before after c hc =>
    have hne : ¬c.kind = k := fun hck => hc (hck ▸ hk)
    simp [List.find?_append, hne]
  | permute _ hkinds => rw [← List.head?_filter, ← List.head?_filter, hkinds k]

theorem find?_eq_of_eqvGen {cs ds : List Node} (h : Relation.EqvGen Rearranges cs ds) {k : Kind}
    (hk : k.IsDeclaration) : (cs.find? fun c => c.kind = k) = ds.find? fun c => c.kind = k :=
  congrArg (Quot.lift (fun cs => cs.find? fun c => c.kind = k) fun _ _ h => h.find?_eq hk)
    (Quot.eqvGen_sound h)

end Node

namespace DeclarativeItem

variable {c n : Node}

theorem classify_of_ne (h : n.kind ≠ .rule .packageDeclarativeItem) : classify n = bare n :=
  if_neg h

theorem classify_wrapper (hn : n.kind = .rule .packageDeclarativeItem) :
    classify n = n.leading?.elim ⟨.unsupported .other, n⟩ bare := by
  rw [classify, if_pos hn, ← Node.leading?]
  cases n.leading? <;> rfl

theorem classify_of_leads (hn : n.kind = .rule .packageDeclarativeItem) (h : c.Leads n) :
    classify n = bare c := by
  rw [classify_wrapper hn, Node.leading?_eq_some_iff.mpr h, Option.elim_some]

theorem classify_of_forall_not (hn : n.kind = .rule .packageDeclarativeItem)
    (h : ∀ c ∈ n.children, ¬c.kind.IsDeclaration) : classify n = ⟨.unsupported .other, n⟩ := by
  rw [classify_wrapper hn, Node.leading?_eq_none_iff.mpr h, Option.elim_none]

theorem role_bare_eq_other_iff : (bare n).role = .unsupported .other ↔ ¬n.kind.IsDeclaration :=
  Role.ofKind_eq_other_iff

/-- A declaration is classified alike by itself and as the one that leads in a wrapper. -/
theorem classify_eq_of_leads (hn : n.kind = .rule .packageDeclarativeItem) (h : c.Leads n) :
    classify n = classify c := by
  have hc : c.kind ≠ .rule .packageDeclarativeItem := fun hkind =>
    Kind.not_isDeclaration_wrapper (hkind ▸ h.declaration)
  rw [classify_of_leads hn h, classify_of_ne hc]

theorem classify_eq_other_iff (hn : n.kind = .rule .packageDeclarativeItem) :
    classify n = ⟨.unsupported .other, n⟩ ↔ ¬∃ c ∈ n.children, c.kind.IsDeclaration := by
  by_cases h : ∃ c ∈ n.children, c.kind.IsDeclaration
  · obtain ⟨c, hc⟩ := Node.exists_leads_iff.mpr h
    refine iff_of_false (fun hother => ?_) (not_not_intro h)
    rw [classify_of_leads hn hc] at hother
    have hrole : (bare c).role = .unsupported .other := congrArg role hother
    exact role_bare_eq_other_iff.mp hrole hc.declaration
  · refine iff_of_true (classify_of_forall_not hn fun c hc hdeclaration => ?_) h
    exact h ⟨c, hc, hdeclaration⟩

/-- What the search in the children finds is all that the classification depends on. -/
theorem classify_withChildren {cs : List Node}
    (h : ∀ k : Kind, k.IsDeclaration →
      (n.children.find? fun c => c.kind = k) = cs.find? fun c => c.kind = k) :
    let m := { n with children := cs }
    (classify m).role = (classify n).role ∧
      ((classify m).node = (classify n).node ∨ (classify m).node = m ∧ (classify n).node = n) := by
  intro m
  by_cases hn : n.kind = .rule .packageDeclarativeItem
  · have hfound : m.leading? = n.leading? := Node.leading?_congr fun k hk => (h k hk).symm
    rw [classify_wrapper (n := m) hn, classify_wrapper hn, hfound]
    cases n.leading? with
    | none => exact ⟨rfl, .inr ⟨rfl, rfl⟩⟩
    | some c => exact ⟨rfl, .inl rfl⟩
  · rw [classify_of_ne hn, classify_of_ne (n := m) hn]
    exact ⟨rfl, .inr ⟨rfl, rfl⟩⟩

/-- A wrapper is classified as the declaration that leads in it, and as an item of no known kind,
itself, exactly if there is no declaration in it; so is a node outside of a wrapper exactly if it is
no declaration. Other children and the order of declarations of different kinds do not matter. -/
theorem classify_wrapped_as_bare :
    (∀ n : Node, n.kind = .rule .packageDeclarativeItem →
      (∀ c : Node, c.Leads n → classify n = classify c ∧ (classify n).node = c ∧
        (classify n).role ≠ .unsupported .other) ∧
      ((∃ c : Node, c.Leads n) ↔ ∃ c ∈ n.children, c.kind.IsDeclaration) ∧
      (classify n = ⟨.unsupported .other, n⟩ ↔ ¬∃ c ∈ n.children, c.kind.IsDeclaration)) ∧
    (∀ n : Node, n.kind ≠ .rule .packageDeclarativeItem →
      (classify n).node = n ∧
      ((classify n).role = .unsupported .other ↔ ¬n.kind.IsDeclaration)) ∧
    (∀ c : Node, c.isToken = true ∨ c.kind = .rule .packageDeclarativeItem →
      ¬c.kind.IsDeclaration) ∧
    ∀ (n : Node) (cs : List Node), Relation.EqvGen Node.Rearranges n.children cs →
      let m := { n with children := cs }
      (classify m).role = (classify n).role ∧
        ((classify m).node = (classify n).node ∨
          (classify m).node = m ∧ (classify n).node = n) := by
  refine ⟨fun n hn => ⟨fun c hc => ?_, Node.exists_leads_iff, classify_eq_other_iff hn⟩,
    fun n hn => ?_, ?_, fun n cs h => ?_⟩
  · refine ⟨classify_eq_of_leads hn hc, ?_, ?_⟩
    · rw [classify_of_leads hn hc, bare]
    · rw [classify_of_leads hn hc]
      exact fun hother => role_bare_eq_other_iff.mp hother hc.declaration
  · rw [classify_of_ne hn]
    exact ⟨rfl, role_bare_eq_other_iff⟩
  · rintro c (htoken | hkind)
    · exact Kind.not_isDeclaration_of_isTokenName (Bool.and_eq_true_iff.mp htoken).1
    · rw [hkind]
      exact Kind.not_isDeclaration_wrapper
  · exact classify_withChildren fun k hk => Node.find?_eq_of_eqvGen h hk

/-- A wrapper in which a component and a token stand around two subprograms. -/
def mixedWrapper : Node :=
  .branch (.rule .packageDeclarativeItem) ⟨0, 9⟩
    [.leaf (.rule .componentDeclaration) ⟨0, 2⟩ "c", .leaf (.rule .subprogramDeclaration) ⟨2, 4⟩ "f",
      .leaf (.other "SEMI") ⟨4, 5⟩ ";", .leaf (.rule .subprogramDeclaration) ⟨5, 7⟩ "g"]

/-- The component stands behind the subprograms, and there is no token. -/
def sortedChildren : List Node :=
  [.leaf (.rule .subprogramDeclaration) ⟨2, 4⟩ "f", .leaf (.rule .subprogramDeclaration) ⟨5, 7⟩ "g",
    .leaf (.rule .componentDeclaration) ⟨0, 2⟩ "c"]

theorem mixedWrapper_rearranges :
    Relation.EqvGen Node.Rearranges mixedWrapper.children sortedChildren := by
  let component : Node := .leaf (.rule .componentDeclaration) ⟨0, 2⟩ "c"
  let functions : List Node := [.leaf (.rule .subprogramDeclaration) ⟨2, 4⟩ "f",
    .leaf (.rule .subprogramDeclaration) ⟨5, 7⟩ "g"]
  have htoken : Node.Rearranges (component :: functions) mixedWrapper.children :=
    .insert [component, _] [_] (by decide)
  have hmoved : Node.Rearranges (component :: functions) sortedChildren := by
    refine .permute (List.perm_append_singleton component functions).symm fun k => ?_
    by_cases hcomponent : Kind.rule .componentDeclaration = k
    · subst hcomponent
      decide
    · by_cases hfunction : Kind.rule .subprogramDeclaration = k <;>
        simp [component, functions, sortedChildren, Node.leaf, hcomponent, hfunction]
  exact .trans _ _ _ (.symm _ _ (.rel _ _ htoken)) (.rel _ _ hmoved)

theorem mixedWrapper_classified :
    (Node.leaf (.rule .subprogramDeclaration) ⟨2, 4⟩ "f").Leads mixedWrapper ∧
      (classify mixedWrapper).role = .subprogram ∧
      Relation.EqvGen Node.Rearranges mixedWrapper.children sortedChildren ∧
      (classify { mixedWrapper with children := sortedChildren }).role = .subprogram := by
  obtain ⟨hwrapper, -, -, hchanged⟩ := classify_wrapped_as_bare
  obtain ⟨hleads, -, -⟩ := hwrapper mixedWrapper rfl
  have hfirst : (Node.leaf (.rule .subprogramDeclaration) ⟨2, 4⟩ "f").Leads mixedWrapper := by
    refine ⟨by decide, ⟨[_], _, rfl, by decide⟩, by decide⟩
  have hrole : (classify mixedWrapper).role = .subprogram :=
    congrArg role (hleads _ hfirst).1
  have hsame := hchanged mixedWrapper _ mixedWrapper_rearranges
  exact ⟨hfirst, hrole, mixedWrapper_rearranges, hsame.1.trans hrole⟩

end DeclarativeItem
end VhdlLowering
