import VhdlLowering.Proofs.EnumerationLiterals

/-!
# The first node below

Looking for a kind below a node finds the first node of the kind in source order. A child of the
kind may be preceded by a node inside an earlier child, so the two searches agree only if there is
none. A type is an enumeration exactly if there is an enumeration anywhere below its declaration,
and the first one gives its literals.
-/

namespace VhdlLowering
namespace Node

variable {k : Kind} {c d n : Node}

theorem findDescendant?_eq_none_iff :
    n.findDescendant? k = none ↔ ∀ d : Node, d.Below n → d.kind ≠ k := by
  simp [findDescendant?_eq_find?, mem_descendants_iff]

theorem isSome_findDescendant?_iff :
    (n.findDescendant? k).isSome ↔ ∃ d : Node, d.Below n ∧ d.kind = k := by
  simp [findDescendant?_eq_find?, mem_descendants_iff]

/-- What stands before a child of the kind is searched before that child. -/
theorem findDescendant?_of_children {before after : List Node}
    (hn : n.children = before ++ c :: after) (hc : c.kind = k) :
    n.findDescendant? k = (findAmong? k before).or (some c) := by
  rw [findDescendant?_eq, hn, findAmong?_append, findAmong?, if_pos hc]

/-- A node found among nodes of other kinds is below one of them. -/
theorem exists_below_of_findAmong? {cs : List Node} (hcs : ∀ b ∈ cs, b.kind ≠ k)
    (h : findAmong? k cs = some d) : ∃ b ∈ cs, d.Below b := by
  rw [findAmong?_eq_find?] at h
  have hd : d.kind = k := by simpa using List.find?_some h
  obtain ⟨b, hb, hwithin⟩ := (mem_preorderOf_iff cs).mp (List.mem_of_find?_eq_some h)
  rcases hwithin.eq_or_below with rfl | hbelow
  · exact absurd hd (hcs d hb)
  · exact ⟨b, hb, hbelow⟩

theorem findDescendant?_of_findAmong? {cs : List Node} (h : findAmong? k cs = none) :
    ∀ b ∈ cs, b.findDescendant? k = none := by
  intro b hb
  rw [findAmong?_eq_find?, List.find?_eq_none] at h
  rw [findDescendant?_eq_none_iff]
  rintro d ⟨c, hc, hd⟩ hk
  exact h d ((mem_preorderOf_iff cs).mpr ⟨b, hb, .inChild hc hd⟩) (by simpa using hk)

/-- If a child has the kind, then it is found, or a node inside a child before it. -/
theorem exists_findDescendant?_of_child? (h : n.child? k = some c) :
    ∃ before after, n.children = before ++ c :: after ∧ (∀ b ∈ before, b.kind ≠ k) ∧
      ∃ d, n.findDescendant? k = some d ∧
        ((d = c ∧ ∀ b ∈ before, b.findDescendant? k = none) ∨ ∃ b ∈ before, d.Below b) := by
  obtain ⟨hc, before, after, hn, hbefore⟩ := List.find?_eq_some_iff_append.mp h
  have hc : c.kind = k := by simpa using hc
  have hbefore : ∀ b ∈ before, b.kind ≠ k := fun b hb => by simpa using hbefore b hb
  refine ⟨before, after, hn, hbefore, ?_⟩
  rw [findDescendant?_of_children hn hc]
  cases hfound : findAmong? k before with
  | none => exact ⟨c, rfl, .inl ⟨rfl, findDescendant?_of_findAmong? hfound⟩⟩
  | some d => exact ⟨d, rfl, .inr (exists_below_of_findAmong? hbefore hfound)⟩

/-- Apart from incomplete declarations, an enumeration below makes a type an enumeration. -/
theorem result_typeDefinition_isEnumeration {file : FileId} {e : TypeDefinition String}
    (hkind : n.kind ≠ .rule .incompleteTypeDeclaration)
    (h : (n.typeDefinition file : Naming (TypeDefinition String)).result = .ok e) :
    (∃ ss, e = .enumeration ss) ↔
      (n.findDescendant? (.rule .enumerationTypeDefinition)).isSome := by
  constructor
  · rintro ⟨ss, rfl⟩
    obtain ⟨node, hnode, -⟩ := exists_of_result_enumeration h
    rw [hnode, Option.isSome_some]
  · intro hsome
    obtain ⟨node, hnode⟩ := Option.isSome_iff_exists.mp hsome
    unfold typeDefinition at h
    rw [if_neg hkind, hnode] at h
    have hliterals : (TypeDefinition.enumeration <$> node.literals.mapM literalName :
        Naming (TypeDefinition String)).result = .ok e := h
    rw [map_eq_pure_bind] at hliterals
    obtain ⟨ss, -, he⟩ := Traced.result_bind_eq_ok.mp hliterals
    cases he
    exact ⟨ss, rfl⟩

end Node

theorem TypeDefinition.isEnumeration_map {ν μ : Type} {f : ν → μ} {d : TypeDefinition ν} :
    (∃ ys, d.map f = .enumeration ys) ↔ ∃ xs, d = .enumeration xs := by
  constructor
  · rintro ⟨ys, h⟩
    obtain ⟨xs, hxs, -⟩ := map_eq_enumeration h
    exact ⟨xs, hxs⟩
  · rintro ⟨xs, rfl⟩
    exact ⟨xs.map f, rfl⟩

namespace TypeDecl

open Follower

variable {file : FileId} {n : Node} {t u : NameTable} {d : TypeDecl Symbol}

theorem exists_result_of_run
    (h : (TypeDecl.ofNode file n : TableM (TypeDecl Symbol)).run t = .ok d u) :
    ∃ e, (TypeDecl.ofNode file n : Naming (TypeDecl String)).result = .ok e ∧
      d.map u.resolve? = e.map some := by
  cases hresult : (TypeDecl.ofNode file n : Naming (TypeDecl String)).result with
  | ok e =>
    obtain ⟨d', u', hrun, hnames⟩ := run_of_result hresult t
    cases hrun.symm.trans h
    exact ⟨e, rfl, hnames⟩
  | error defect =>
    have hrun := replays_ofNode file n t List.prefix_rfl
    rw [hresult] at hrun
    cases hrun.symm.trans h

theorem isEnumeration_iff
    (h : (TypeDecl.ofNode file n : TableM (TypeDecl Symbol)).run t = .ok d u)
    (hkind : n.typeParts.kind ≠ .rule .incompleteTypeDeclaration) :
    (∃ xs, d.definition = .enumeration xs) ↔
      ∃ e : Node, e.Below n.typeParts ∧ e.kind = .rule .enumerationTypeDefinition := by
  obtain ⟨e, he, hnames⟩ := exists_result_of_run h
  obtain ⟨-, hdefinition, -⟩ := result_ofNode_eq_ok.mp he
  have hsame : d.definition.map u.resolve? = e.definition.map some :=
    congrArg TypeDecl.definition hnames
  calc (∃ xs, d.definition = .enumeration xs)
    _ ↔ ∃ ys, d.definition.map u.resolve? = .enumeration ys :=
        TypeDefinition.isEnumeration_map.symm
    _ ↔ ∃ ss, e.definition = .enumeration ss := by
        rw [hsame, TypeDefinition.isEnumeration_map]
    _ ↔ _ := Node.result_typeDefinition_isEnumeration hkind hdefinition
    _ ↔ _ := Node.isSome_findDescendant?_iff

end TypeDecl

namespace Node

/-- An enumeration with one literal. -/
def enumerationOf (s : Span) (literal : String) : Node :=
  .branch (.rule .enumerationTypeDefinition) s [.leaf (.rule .identifier) s literal]

/-- A type with an enumeration deep in its definition and another one behind the definition. -/
def twoEnumerations : Node :=
  .branch (.rule .typeDeclaration) ⟨0, 9⟩
    [.leaf (.rule .identifier) ⟨0, 1⟩ "t",
      .branch (.rule .typeDefinition) ⟨2, 5⟩
        [.branch (.other "scalar") ⟨2, 5⟩ [enumerationOf ⟨3, 5⟩ "a"]],
      enumerationOf ⟨6, 9⟩ "b"]

end Node
end VhdlLowering
