import VhdlLowering.Proofs.NormalForm
import VhdlLowering.Proofs.ReplayLowering

/-!
# Literals of enumerations

The name of a type has to have a text. The literals of an enumeration need not: each of them is the
source text of its node, also if that is empty, so a type may have literals without a name.
-/

namespace VhdlLowering

open Follower

variable {file : FileId} {n : Node}

namespace Node

theorem name_of_not_isNamed (h : ¬n.IsNamed) :
    (n.name : Naming String) = Traced.fail (.missingIn n .identifier) := by
  rw [name, required]
  cases hident : n.child? (.rule .identifier) with
  | none => rfl
  | some ident =>
    have hempty : ident.sourceText = "" := by
      by_contra hne
      exact h ⟨ident, hident, hne⟩
    change Traced.bind (pure ident) n.nameBy = _
    simp only [Traced.bind, Traced.result_pure, Traced.trace_pure, nameBy, if_pos hempty]
    rfl

theorem result_literals {cs : List Node} {ss : List String} :
    (cs.mapM literalName : Naming (List String)).result = .ok ss ↔ ss = cs.map sourceText := by
  rw [Traced.result_mapM_eq_ok]
  constructor
  · intro h
    induction h with
    | nil => rfl
    | cons hc _ ih =>
      cases hc
      rw [ih, List.map_cons]
  · rintro rfl
    rw [List.forall₂_map_right_iff]
    exact List.forall₂_same.mpr fun c _ => rfl

/-- An enumeration is the first one below the declaration, with the texts of its literals. -/
theorem exists_of_result_enumeration {ss : List String}
    (h : (n.typeDefinition file : Naming (TypeDefinition String)).result = .ok (.enumeration ss)) :
    ∃ e, n.findDescendant? (.rule .enumerationTypeDefinition) = some e ∧
      ss = e.literals.map sourceText := by
  unfold typeDefinition at h
  split at h
  · cases h
  · split at h
    · rename_i e he
      rw [map_eq_pure_bind] at h
      obtain ⟨texts, htexts, hss⟩ := Traced.result_bind_eq_ok.mp h
      cases hss
      exact ⟨e, he, result_literals.mp htexts⟩
    · cases h
    · cases h

end Node

theorem TypeDefinition.map_eq_enumeration {ν μ : Type} {f : ν → μ} {d : TypeDefinition ν}
    {ys : List μ} (h : d.map f = .enumeration ys) : ∃ xs, d = .enumeration xs ∧ xs.map f = ys := by
  cases d with
  | enumeration xs =>
    cases h
    exact ⟨xs, rfl, rfl⟩
  | incomplete => cases h
  | verbatim expr => cases h

namespace TypeDecl

theorem ofNode_of_not_isNamed (h : ¬n.typeParts.IsNamed) :
    (TypeDecl.ofNode file n : Naming (TypeDecl String)) =
      Traced.fail (.missingIn n.typeParts .identifier) := by
  rw [ofNode, Node.name_of_not_isNamed h]
  rfl

/-- What a type declaration that is read consists of. -/
theorem result_ofNode_eq_ok {e : TypeDecl String} :
    (TypeDecl.ofNode file n : Naming (TypeDecl String)).result = .ok e ↔
      (n.typeParts.name : Naming String).result = .ok e.name ∧
        (n.typeParts.typeDefinition file : Naming (TypeDefinition String)).result =
          .ok e.definition ∧
        e.span = n.fileSpan file := by
  rw [ofNode, Traced.result_bind_eq_ok]
  constructor
  · rintro ⟨name, hname, hrest⟩
    obtain ⟨definition, hdefinition, he⟩ := Traced.result_bind_eq_ok.mp hrest
    cases he
    exact ⟨hname, hdefinition, rfl⟩
  · rintro ⟨hname, hdefinition, hspan⟩
    refine ⟨e.name, hname, Traced.result_bind_eq_ok.mpr ⟨e.definition, hdefinition, ?_⟩⟩
    rw [← hspan]
    rfl

theorem run_of_result {e : TypeDecl String}
    (h : (TypeDecl.ofNode file n : Naming (TypeDecl String)).result = .ok e) (t : NameTable) :
    ∃ d u, (TypeDecl.ofNode file n : TableM (TypeDecl Symbol)).run t = .ok d u ∧
      d.map u.resolve? = e.map some := by
  have hrun := replays_ofNode file n t List.prefix_rfl
  rw [h] at hrun
  obtain ⟨d, hd, hnames⟩ := hrun
  exact ⟨d, _, hd, hnames⟩

theorem exists_run_of_enumeration {e : TypeDecl String} {ss : List String}
    (h : (TypeDecl.ofNode file n : Naming (TypeDecl String)).result = .ok e)
    (he : e.definition = .enumeration ss) (t : NameTable) :
    ∃ d u xs, (TypeDecl.ofNode file n : TableM (TypeDecl Symbol)).run t = .ok d u ∧
      d.definition = .enumeration xs ∧ xs.map u.resolve? = ss.map some := by
  obtain ⟨d, u, hrun, hnames⟩ := run_of_result h t
  have hshown : d.definition.map u.resolve? = .enumeration (ss.map some) := by
    have hdefinitions := congrArg TypeDecl.definition hnames
    rw [map, map, he] at hdefinitions
    exact hdefinitions
  obtain ⟨xs, hxs, hlookup⟩ := TypeDefinition.map_eq_enumeration hshown
  exact ⟨d, u, xs, hrun, hxs, hlookup⟩

theorem run_of_not_isNamed (h : ¬n.typeParts.IsNamed) (t : NameTable) :
    (TypeDecl.ofNode file n : TableM (TypeDecl Symbol)).run t =
      .error (.missingIn n.typeParts .identifier) t := by
  have hrun := replays_ofNode (T := t) file n t
  rw [ofNode_of_not_isNamed h] at hrun
  exact hrun List.prefix_rfl

/-- The symbols of the literals stand for the texts of their nodes. -/
theorem literals_of_result {e : TypeDecl String} {d : TypeDecl Symbol} {u : NameTable}
    (he : (TypeDecl.ofNode file n : Naming (TypeDecl String)).result = .ok e)
    (hnames : d.map u.resolve? = e.map some) {xs : List Symbol}
    (hxs : d.definition = .enumeration xs) :
    ∃ node : Node, n.typeParts.findDescendant? (.rule .enumerationTypeDefinition) = some node ∧
      xs.map u.resolve? = node.literals.map fun c => some c.sourceText := by
  obtain ⟨-, hdefinition, -⟩ := result_ofNode_eq_ok.mp he
  have hshown : e.definition.map some = .enumeration (xs.map u.resolve?) := by
    have hdefinitions := congrArg TypeDecl.definition hnames
    rw [map, hxs] at hdefinitions
    exact hdefinitions.symm
  obtain ⟨ss, hss, hlookup⟩ := TypeDefinition.map_eq_enumeration hshown
  obtain ⟨node, hnode, htexts⟩ := Node.exists_of_result_enumeration (hss ▸ hdefinition)
  rw [htexts, List.map_map] at hlookup
  exact ⟨node, hnode, hlookup.symm⟩

theorem forall_named_iff {u : NameTable} {xs : List Symbol} {cs : List Node}
    (h : xs.map u.resolve? = cs.map fun c => some c.sourceText) :
    (∀ x ∈ xs, ∃ s, u.resolve? x = some s ∧ s ≠ "") ↔ ∀ c ∈ cs, ¬c.IsBlank := by
  have hall : (∀ y ∈ xs.map u.resolve?, ∃ s, y = some s ∧ s ≠ "") ↔ ∀ c ∈ cs, ¬c.IsBlank := by
    rw [h]
    simp [Node.sourceText_eq_empty_iff]
  rw [← hall, List.forall_mem_map]

/-- A type is read exactly if it has a name, whatever its literals are. The literals of an
enumeration are the source texts of the literals of the first enumeration below the declaration, in
order, so they all have a text exactly if none of those nodes is blank. -/
theorem literals_unchecked (file : FileId) (n : Node) (t : NameTable) :
    let run := (TypeDecl.ofNode file n : TableM (TypeDecl Symbol)).run t
    ((∃ d u, run = .ok d u) ↔ n.typeParts.IsNamed) ∧
    (∀ e u, run = .error e u ↔
      ¬n.typeParts.IsNamed ∧ e = .missingIn n.typeParts .identifier ∧ u = t) ∧
    ∀ d u, run = .ok d u →
      (∃ s, u.resolve? d.name = some s ∧ s ≠ "") ∧
      ∀ xs, d.definition = .enumeration xs →
        ∃ e : Node, n.typeParts.findDescendant? (.rule .enumerationTypeDefinition) = some e ∧
          xs.map u.resolve? = e.literals.map (fun c => some c.sourceText) ∧
          ((∀ x ∈ xs, ∃ s, u.resolve? x = some s ∧ s ≠ "") ↔ ∀ c ∈ e.literals, ¬c.IsBlank) := by
  intro run
  by_cases hnamed : n.typeParts.IsNamed
  · obtain ⟨e, he⟩ : (TypeDecl.ofNode file n : Naming (TypeDecl String)).Succeeds :=
      succeeds_ofNode.mpr hnamed
    obtain ⟨d, u, hrun, hnames⟩ := run_of_result he t
    have hrun : run = .ok d u := hrun
    refine ⟨iff_of_true ⟨d, u, hrun⟩ hnamed, fun defect v => ?_, fun d' u' h => ?_⟩
    · simp [hrun, hnamed]
    · cases hrun.symm.trans h
      refine ⟨?_, fun xs hxs => ?_⟩
      · obtain ⟨hname, -, -⟩ := result_ofNode_eq_ok.mp he
        obtain ⟨ident, -, hne, hident⟩ := Node.result_name_eq_ok.mp hname
        exact ⟨e.name, congrArg TypeDecl.name hnames, hident ▸ hne⟩
      · obtain ⟨node, hnode, hlookup⟩ := literals_of_result he hnames hxs
        exact ⟨node, hnode, hlookup, forall_named_iff hlookup⟩
  · have hrun : run = .error (.missingIn n.typeParts .identifier) t := run_of_not_isNamed hnamed t
    refine ⟨iff_of_false ?_ hnamed, fun defect v => ?_, fun d u h => ?_⟩
    · rintro ⟨d, u, h⟩
      cases hrun.symm.trans h
    · simp [hrun, hnamed, eq_comm]
    · cases hrun.symm.trans h

/-- A type with the literals `a` and a token of the given text. -/
def twoLiterals (text : String) : Node :=
  let literals : List Node := [.leaf (.rule .identifier) ⟨3, 4⟩ "a",
    .branch (.rule .identifier) ⟨5, 8⟩ [.leaf (.other "BASIC_IDENTIFIER") ⟨5, 8⟩ text]]
  .branch (.rule .typeDeclaration) ⟨0, 9⟩ [.branch (.rule .fullTypeDeclaration) ⟨0, 9⟩
    [.leaf (.rule .identifier) ⟨0, 1⟩ "t", .branch (.rule .typeDefinition) ⟨2, 9⟩
      [.branch (.rule .enumerationTypeDefinition) ⟨2, 9⟩ literals]]]

theorem exists_run_twoLiterals (text : String) (ss : List String)
    (h : (TypeDecl.ofNode ⟨0⟩ (twoLiterals text) : Naming (TypeDecl String)).result =
      .ok ⟨"t", .enumeration ss, ⟨⟨0⟩, ⟨0, 9⟩⟩⟩) :
    ∃ d u xs, (TypeDecl.ofNode ⟨0⟩ (twoLiterals text) : TableM (TypeDecl Symbol)).run .empty =
        .ok d u ∧
      d.definition = .enumeration xs ∧ xs.map u.resolve? = ss.map some :=
  exists_run_of_enumeration h rfl .empty

theorem twoLiterals_named :
    ∃ d u xs, (TypeDecl.ofNode ⟨0⟩ (twoLiterals "b") : TableM (TypeDecl Symbol)).run .empty =
        .ok d u ∧
      d.definition = .enumeration xs ∧ ∀ x ∈ xs, ∃ s, u.resolve? x = some s ∧ s ≠ "" := by
  obtain ⟨d, u, xs, hrun, hxs, -⟩ :=
    exists_run_twoLiterals "b" ["a", "b"] (by decide +kernel)
  obtain ⟨-, -, hread⟩ := literals_unchecked ⟨0⟩ (twoLiterals "b") .empty
  obtain ⟨-, hliterals⟩ := hread d u hrun
  obtain ⟨e, he, -, hiff⟩ := hliterals xs hxs
  have htexts : (((twoLiterals "b").typeParts.findDescendant?
      (.rule .enumerationTypeDefinition)).map fun e => e.literals.map Node.sourceText) =
        some ["a", "b"] := by
    decide +kernel
  rw [he] at htexts
  have htexts : e.literals.map Node.sourceText = ["a", "b"] := Option.some.inj htexts
  refine ⟨d, u, xs, hrun, hxs, hiff.mpr fun c hc hblank => ?_⟩
  have hmem := List.mem_map_of_mem (f := Node.sourceText) hc
  rw [htexts, Node.sourceText_eq_empty_iff.mpr hblank] at hmem
  revert hmem
  decide

/-- A literal without any text is read, and its symbol stands for the empty text. -/
theorem twoLiterals_nameless :
    ∃ d u xs, (TypeDecl.ofNode ⟨0⟩ (twoLiterals "\t ") : TableM (TypeDecl Symbol)).run .empty =
        .ok d u ∧
      d.definition = .enumeration xs ∧ xs.map u.resolve? = [some "a", some ""] :=
  exists_run_twoLiterals "\t " ["a", ""] (by decide +kernel)

end TypeDecl
end VhdlLowering
