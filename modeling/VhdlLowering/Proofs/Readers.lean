import VhdlLowering.Lowering.Scope
import VhdlLowering.Proofs.Traces

/-!
# What readers give

Names and objects are read off the tree: a name is the text of an identifier, which may not be
empty, and a declaration of objects gives one object for each of its identifiers.
-/

namespace VhdlLowering

theorem result_require_eq_ok {α : Type} {x : Option α} {d : Defect} {a : α} :
    (require x d : Naming α).result = .ok a ↔ x = some a := by
  cases x with
  | none => exact ⟨fun h => (by cases h), fun h => (by cases h)⟩
  | some b => exact Except.ok.injEq b a ▸ Iff.of_eq (Option.some.injEq b a).symm

namespace Node

variable {n : Node}

theorem result_required_eq_ok {r : Rule} {c : Node} :
    (n.required r : Naming Node).result = .ok c ↔ n.child? r = some c :=
  result_require_eq_ok

theorem result_ensure_eq_ok {r : Rule} {u : Unit} :
    (n.ensure r : Naming Unit).result = .ok u ↔ n.kind = .rule r := by
  unfold ensure
  split
  · rename_i h
    exact ⟨fun _ => h, fun _ => rfl⟩
  · rename_i h
    exact ⟨fun hok => (by cases hok), fun hk => absurd hk h⟩

theorem result_nameBy_eq_ok {ident : Node} {s : String} :
    (n.nameBy ident : Naming String).result = .ok s ↔
      ident.sourceText ≠ "" ∧ s = ident.sourceText := by
  unfold nameBy
  split
  · rename_i h
    exact ⟨fun hok => (by cases hok), fun hs => absurd h hs.1⟩
  · rename_i h
    exact ⟨fun hok => ⟨h, (Except.ok.inj hok).symm⟩, fun hs => congrArg Except.ok hs.2.symm⟩

theorem result_name_eq_ok {s : String} :
    (n.name : Naming String).result = .ok s ↔
      ∃ c, n.child? (.rule .identifier) = some c ∧ c.sourceText ≠ "" ∧ s = c.sourceText := by
  rw [name, Traced.result_bind_eq_ok]
  simp only [result_required_eq_ok, result_nameBy_eq_ok]

/-- The names of a declaration are the texts of its identifiers. -/
theorem result_names_eq_ok {ss : List String} :
    (n.names : Naming (List String)).result = .ok ss ↔
      n.identifiers ≠ [] ∧ (∀ c ∈ n.identifiers, c.sourceText ≠ "") ∧
        ss = n.identifiers.map sourceText := by
  have htexts (cs : List Node) (ss : List String) :
      (cs.mapM n.nameBy : Naming (List String)).result = .ok ss ↔
        (∀ c ∈ cs, c.sourceText ≠ "") ∧ ss = cs.map sourceText := by
    rw [Traced.result_mapM_eq_ok]
    simp only [result_nameBy_eq_ok]
    induction cs generalizing ss with
    | nil => simp
    | cons c cs ih =>
      rw [List.forall₂_cons_left_iff]
      constructor
      · intro h
        rcases h with ⟨s, ss, ⟨hne, rfl⟩, hrest, rfl⟩
        obtain ⟨hall, rfl⟩ := (ih ss).mp hrest
        exact ⟨List.forall_mem_cons.mpr ⟨hne, hall⟩, rfl⟩
      · intro h
        rcases h with ⟨hall, rfl⟩
        obtain ⟨hne, hall⟩ := List.forall_mem_cons.mp hall
        exact ⟨_, _, ⟨hne, rfl⟩, (ih _).mpr ⟨hall, rfl⟩, rfl⟩
  rw [names, Traced.result_bind_eq_ok]
  constructor
  · intro h
    rcases h with ⟨names, hnames, hrest⟩
    obtain ⟨hall, rfl⟩ := (htexts _ _).mp hnames
    split at hrest
    · cases hrest
    · rename_i hempty
      cases hrest
      exact ⟨by simpa using hempty, hall, rfl⟩
  · intro h
    rcases h with ⟨hne, hall, rfl⟩
    refine ⟨_, (htexts _ _).mpr ⟨hall, rfl⟩, ?_⟩
    rw [if_neg (by simpa using hne)]
    rfl

end Node

theorem Object.map_name_forNames {ν : Type} (kind : ObjectKind) (direction : Option Direction)
    (type : Expr) (value : Option Expr) (span : FileSpan) (names : List ν) :
    (forNames kind direction type value span names).map Object.name = names := by
  simp [forNames, Function.comp_def]

/-- A declaration of objects names them by its identifiers, of which there is at least one. -/
theorem Object.names_of_result {file : FileId} {kind : ObjectKind} {n : Node}
    {os : List (Object String)}
    (h : (Object.ofNode file kind n : Naming (List (Object String))).result = .ok os) :
    os ≠ [] ∧ os.map Object.name = n.identifiers.map Node.sourceText := by
  obtain ⟨ss, hss, hrest⟩ := Traced.result_bind_eq_ok.mp h
  obtain ⟨type, -, hos⟩ := Traced.result_bind_eq_ok.mp hrest
  obtain ⟨hne, -, rfl⟩ := Node.result_names_eq_ok.mp hss
  cases hos
  refine ⟨fun hnil => hne ?_, map_name_forNames _ _ _ _ _ _⟩
  simpa [forNames] using hnil

namespace InterfaceList

theorem others_of_ofNode {file : FileId} {kind : ObjectKind} {clause : Node}
    {l : InterfaceList String}
    (h : (ofNode file kind clause : Naming (InterfaceList String)).result = .ok l) :
    l.others = clause.interfaceItems.filterMap InterfaceItem.other? := by
  obtain ⟨oss, -, hl⟩ := Traced.result_bind_eq_ok.mp h
  cases hl
  rfl

/-- What a clause hands back unread, if the node has that clause. -/
def othersOf (clause : Rule) (n : Node) : List Node :=
  match n.child? clause with
  | some c => c.interfaceItems.filterMap InterfaceItem.other?
  | none => []

theorem others_of_ofChild {file : FileId} {kind : ObjectKind} {clause : Rule} {n : Node}
    {l : InterfaceList String}
    (h : (ofChild file kind clause n : Naming (InterfaceList String)).result = .ok l) :
    l.others = othersOf clause n := by
  unfold ofChild at h
  unfold othersOf
  cases hc : n.child? clause with
  | none =>
    rw [hc] at h
    cases h
    rfl
  | some c =>
    rw [hc] at h
    exact others_of_ofNode h

end InterfaceList
end VhdlLowering
