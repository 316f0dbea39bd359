import VhdlLowering.Lowering.Scope

/-!
# Well-formed packages

Which trees can be lowered is a matter of their shape: names have text, objects have a type, modes
are keywords. The shape is stated here by itself, without reference to the readers; an item that is
not supported may have any shape.
-/

namespace VhdlLowering

namespace Node

/-- A node with a name. -/
def IsNamed (n : Node) : Prop :=
  ∃ c, n.child? (.rule .identifier) = some c ∧ c.sourceText ≠ ""

/-- A declaration of objects: it has names and a type. -/
structure IsObject (n : Node) : Prop where
  nonempty : n.identifiers ≠ []
  texts : ∀ c ∈ n.identifiers, c.sourceText ≠ ""
  type : ∃ c, n.child? (.rule .subtypeIndication) = some c

/-- A mode is a keyword between blanks, in small or capital letters. -/
def IsMode (n : Node) : Prop :=
  ∃ d : Direction, (Text.trim n.sourceText).map Char.toLower = d.keyword

/-- A declaration of interface objects, which may have a mode. -/
structure IsInterfaceObject (n : Node) : Prop extends n.IsObject where
  mode : ∀ c, n.child? (.rule .mode) = some c → c.IsMode

/-- What stands in an interface clause: an object declaration or something else, directly or in
wrappers. Tokens do not count, and nothing stands in an object declaration or in something else. -/
inductive Holds : Node → InterfaceItem → Prop
  | object {clause c : Node} (hc : c ∈ clause.phrases) (hobject : c.declaresInterface = true) :
      Holds clause (.object c)
  | wrapped {clause c : Node} {item : InterfaceItem} (hc : c ∈ clause.phrases)
      (hobject : c.declaresInterface = false) (hwrapper : c.kind.isInterfaceWrapper = true)
      (hitem : Holds c item) : Holds clause item
  | other {clause c : Node} (hc : c ∈ clause.phrases) (hobject : c.declaresInterface = false)
      (hwrapper : c.kind.isInterfaceWrapper = false) : Holds clause (.other c)

theorem interfaceItems_eq (n : Node) :
    n.interfaceItems = n.phrases.flatMap fun c =>
      if c.declaresInterface then [.object c]
      else if c.kind.isInterfaceWrapper then c.interfaceItems
      else [.other c] := by
  obtain ⟨kind, span, text, cs⟩ := n
  rw [interfaceItems, phrases]
  induction cs with
  | nil => rfl
  | cons c cs ih =>
    rw [interfaceItemsAmong, ih]
    cases htoken : c.isToken <;> simp [htoken]

theorem holds_of_mem_interfaceItems {n : Node} {item : InterfaceItem}
    (h : item ∈ n.interfaceItems) : n.Holds item := by
  rw [interfaceItems_eq] at h
  obtain ⟨c, hc, hitem⟩ := List.mem_flatMap.mp h
  have hsize : c.size < n.size := size_lt_of_mem_children (List.mem_filter.mp hc).1
  split at hitem
  · rename_i hobject
    cases List.mem_singleton.mp hitem
    exact .object hc hobject
  · rename_i hobject
    rw [Bool.not_eq_true] at hobject
    split at hitem
    · rename_i hwrapper
      exact .wrapped hc hobject hwrapper (holds_of_mem_interfaceItems hitem)
    · rename_i hwrapper
      cases List.mem_singleton.mp hitem
      exact .other hc hobject (Bool.not_eq_true _ ▸ hwrapper)
termination_by n.size

theorem mem_interfaceItems_of_holds {n : Node} {item : InterfaceItem} (h : n.Holds item) :
    item ∈ n.interfaceItems := by
  induction h with
  | object hc hobject =>
    rw [interfaceItems_eq]
    exact List.mem_flatMap.mpr ⟨_, hc, by simp [hobject]⟩
  | wrapped hc hobject hwrapper _ ih =>
    rw [interfaceItems_eq]
    exact List.mem_flatMap.mpr ⟨_, hc, by simpa [hobject, hwrapper] using ih⟩
  | other hc hobject hwrapper =>
    rw [interfaceItems_eq]
    exact List.mem_flatMap.mpr ⟨_, hc, by simp [hobject, hwrapper]⟩

/-- The walk through a clause comes upon what stands in it. -/
theorem mem_interfaceItems_iff {n : Node} {item : InterfaceItem} :
    item ∈ n.interfaceItems ↔ n.Holds item :=
  ⟨holds_of_mem_interfaceItems, mem_interfaceItems_of_holds⟩

/-- All object declarations of a clause have the shape of one. -/
def IsInterfaceClause (clause : Node) : Prop :=
  ∀ c, clause.Holds (.object c) → c.IsInterfaceObject

/-- A parameter list holds nothing but object declarations. -/
structure IsParameterList (list : Node) : Prop where
  objects : list.IsInterfaceClause
  nothingElse : ∀ c, ¬list.Holds (.other c)

/-- The specification of a subprogram: a function if there is one, or else a procedure. -/
inductive Specifies : Node → SubprogramKind → Node → Prop
  | function {n f : Node} (hf : n.child? (.rule .functionSpecification) = some f) :
      Specifies n .function f
  | procedure {n p : Node} (hf : n.child? (.rule .functionSpecification) = none)
      (hp : n.child? (.rule .procedureSpecification) = some p) : Specifies n .procedure p

/-- The specification of a function or procedure, named by a designator or else by an identifier. A
function has the mark of its return type, or else a subtype. -/
structure IsSpecification (kind : SubprogramKind) (spec : Node) : Prop where
  name : ∃ c, (spec.child? (.rule .designator)).or (spec.child? (.rule .identifier)) = some c ∧
    c.sourceText ≠ ""
  parameters : ∀ list, spec.child? (.rule .formalParameterList) = some list →
    list.IsParameterList
  returnType : kind = .function →
    ∃ c, (spec.child? (.rule .typeMark)).or (spec.child? (.rule .subtypeIndication)) = some c

def IsSubprogram (n : Node) : Prop :=
  ∃ outer kind spec, n.child? (.rule .subprogramSpecification) = some outer ∧
    outer.Specifies kind spec ∧ spec.IsSpecification kind

structure IsComponent (n : Node) : Prop where
  kind : n.kind = .rule .componentDeclaration
  name : n.IsNamed
  generics : ∀ c, n.child? (.rule .genericClause) = some c → c.IsInterfaceClause
  ports : ∀ c, n.child? (.rule .portClause) = some c → c.IsInterfaceClause

end Node

mutual

/-- A package has a name, and its items are well formed. -/
inductive Node.IsPackage : Node → Prop
  | intro {n : Node} (hkind : n.kind = .rule .packageDeclaration) (hname : n.IsNamed)
      (hitems : ∀ c ∈ n.packageItems, DeclarativeItem.IsWellFormed (DeclarativeItem.classify c)) :
      Node.IsPackage n

/-- Only supported items need to have a certain shape. -/
inductive DeclarativeItem.IsWellFormed : DeclarativeItem → Prop
  | subprogram {n : Node} (h : n.IsSubprogram) : DeclarativeItem.IsWellFormed ⟨.subprogram, n⟩
  | package {n : Node} (h : n.IsPackage) : DeclarativeItem.IsWellFormed ⟨.package, n⟩
  | type {n : Node} (h : n.typeParts.IsNamed) : DeclarativeItem.IsWellFormed ⟨.type, n⟩
  | subtype {n : Node} (hname : n.IsNamed)
      (htype : ∃ c, n.child? (.rule .subtypeIndication) = some c) :
      DeclarativeItem.IsWellFormed ⟨.subtype, n⟩
  | constant {n : Node} (h : n.IsObject) : DeclarativeItem.IsWellFormed ⟨.constant, n⟩
  | signal {n : Node} (h : n.IsObject) : DeclarativeItem.IsWellFormed ⟨.signal, n⟩
  | variable {n : Node} (h : n.IsObject) : DeclarativeItem.IsWellFormed ⟨.variable, n⟩
  | component {n : Node} (h : n.IsComponent) : DeclarativeItem.IsWellFormed ⟨.component, n⟩
  | unsupported {u : Unsupported} {n : Node} : DeclarativeItem.IsWellFormed ⟨.unsupported u, n⟩

end

end VhdlLowering
