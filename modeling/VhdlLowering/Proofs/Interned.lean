import VhdlLowering.Ast.Interning
import VhdlLowering.Proofs.Resolution

/-!
# Trees whose names are interned

Interning the names of a tree puts a symbol in the place of each name, and the table grows by the
names in pre-order. Resolving the symbols gives the tree back, now and in every later table, and
interning a tree of a table once more changes nothing.
-/

namespace VhdlLowering

variable {u : NameTable}

/-- A name that the table holds is resolved from its symbol. -/
theorem NameTable.resolve?_symbolOf {s : String} (h : s ∈ u.names) :
    u.resolve? (u.symbolOf s) = some s := by
  rw [resolve?, symbolOf, List.getElem?_eq_getElem (List.idxOf_lt_length_of_mem h)]
  simp

/-- Run in any table, the action interns the names in this order. If all of them are still in the
table `u`, it gives `a`. -/
def Interns {α : Type} (u : NameTable) (names : List String) (a : α) (act : StateM NameTable α) :
    Prop :=
  ∀ t : NameTable, (t.internAll names).names <+: u.names → act.run t = (a, t.internAll names)

section Actions

variable {α β : Type} {names more : List String}

theorem interns_pure (a : α) : Interns u [] a (pure a) := fun _ _ => rfl

theorem interns_name (s : String) : Interns u [s] (u.symbolOf s) (internName s) := by
  intro t hgrowth
  have hsymbol : u.resolve? (t.intern s).1 = some s :=
    NameTable.resolve?_of_prefix hgrowth (t.resolve?_intern s)
  rw [NameTable.symbolOf_of_resolve? hsymbol]
  rfl

/-- The names of the first action are interned before those of the second one. -/
theorem Interns.bind {a : α} {b : β} {act : StateM NameTable α} {p : α → StateM NameTable β}
    (hact : Interns u names a act) (hp : Interns u more b (p a)) :
    Interns u (names ++ more) b (act >>= p) := by
  intro t hgrowth
  rw [NameTable.internAll_append] at hgrowth ⊢
  have hfirst : (t.internAll names).names <+: u.names :=
    (NameTable.prefix_internAll _ more).trans hgrowth
  rw [StateT.run_bind, hact t hfirst]
  exact hp _ hgrowth

theorem Interns.map {a : α} {act : StateM NameTable α} (h : Interns u names a act) (f : α → β) :
    Interns u names (f a) (act >>= fun a => pure (f a)) := by
  rw [← List.append_nil names]
  exact h.bind (interns_pure _)

/-- One name is interned for each element of a list. -/
theorem interns_mapM {p : α → StateM NameTable β} {name : α → String} {f : α → β} {as : List α}
    (h : ∀ a ∈ as, Interns u [name a] (f a) (p a)) :
    Interns u (as.map name) (as.map f) (as.mapM p) := by
  induction as with
  | nil => exact interns_pure []
  | cons a as ih =>
    obtain ⟨ha, has⟩ := List.forall_mem_cons.mp h
    rw [List.mapM_cons]
    exact ha.bind ((ih has).map _)

end Actions

theorem Object.interns (o : Object String) :
    Interns u [o.name] (o.map u.symbolOf) o.intern :=
  (interns_name o.name).map _

theorem Subprogram.interns (d : Subprogram String) :
    Interns u d.names (d.map u.symbolOf) d.intern :=
  (interns_name d.name).bind ((interns_mapM fun o _ => o.interns).map _)

theorem TypeDefinition.interns (d : TypeDefinition String) :
    Interns u d.names (d.map u.symbolOf) d.intern := by
  cases d with
  | enumeration literals =>
    have hliterals : Interns u (literals.map id) (literals.map u.symbolOf)
        (literals.mapM internName) := interns_mapM fun s _ => interns_name s
    rw [List.map_id] at hliterals
    exact hliterals.map _
  | incomplete => exact interns_pure _
  | verbatim e => exact interns_pure _

theorem TypeDecl.interns (d : TypeDecl String) :
    Interns u d.names (d.map u.symbolOf) d.intern :=
  (interns_name d.name).bind (d.definition.interns.map _)

theorem SubtypeDecl.interns (d : SubtypeDecl String) :
    Interns u [d.name] (d.map u.symbolOf) d.intern :=
  (interns_name d.name).map _

theorem Component.interns (d : Component String) :
    Interns u d.names (d.map u.symbolOf) d.intern :=
  (interns_name d.name).bind
    ((interns_mapM fun o _ => o.interns).bind ((interns_mapM fun o _ => o.interns).map _))

mutual

theorem Declaration.interns : ∀ d : Declaration String,
    Interns u d.names (d.map u.symbolOf) d.intern
  | .subprogram d => d.interns.map _
  | .type d => d.interns.map _
  | .subtype d => d.interns.map _
  | .constant d => d.interns.map _
  | .signal d => d.interns.map _
  | .variable d => d.interns.map _
  | .package ⟨name, _, ds, _⟩ => (interns_name name).bind ((Declaration.internsList ds).map _)
  | .component d => d.interns.map _

theorem Declaration.internsList : ∀ ds : List (Declaration String),
    Interns u (Declaration.namesOf ds) (Declaration.mapList u.symbolOf ds)
      (Declaration.internList ds)
  | [] => interns_pure []
  | d :: ds => d.interns.bind ((Declaration.internsList ds).map _)

end

namespace Package

theorem interns (p : Package String) :
    Interns u (names p) (map u.symbolOf p) p.intern := by
  rw [names, map, ← Declaration.namesOf_eq_flatMap, ← Declaration.mapList_eq_map]
  exact (interns_name p.name).bind ((Declaration.internsList p.declarations).map _)

/-- The table grows by the names of the package, and the symbols of the package resolve to these
names as long as the table only grows. -/
theorem resolve_intern (p : Package String) (t : NameTable) :
    (p.intern.run t).2 = t.internAll (names p) ∧
      ∀ later : NameTable, (p.intern.run t).2.names <+: later.names →
        map later.resolve? (p.intern.run t).1 = map some p := by
  have htable : (p.intern.run t).2 = t.internAll (names p) := by
    rw [p.interns t List.prefix_rfl]
  refine ⟨htable, fun later hgrowth => ?_⟩
  rw [htable] at hgrowth
  rw [p.interns t hgrowth, map_map]
  refine map_congr fun s hs => NameTable.resolve?_symbolOf ?_
  exact hgrowth.subset (NameTable.mem_names_internAll.mpr (.inr hs))

/-- A package of a table is interned as itself, and no name of it is new. -/
theorem intern_shown {t : NameTable} {q : Package Symbol} {p : Package String}
    (h : map t.resolve? q = map some p) : p.intern.run t = (q, t) := by
  have hshown : (Product.package q).map t.resolve? = (Product.package p).map some :=
    congrArg Product.package h
  have hsymbols : map t.symbolOf p = q := Product.package.inj (Product.map_symbolOf hshown)
  have hnames : (names q).map t.resolve? = (names p).map some := by
    rw [← names_map, h, names_map]
  have hknown : t.internAll (names p) = t := by
    refine NameTable.internAll_of_known fun s hs => ?_
    have hmem : some s ∈ (names q).map t.resolve? := hnames ▸ List.mem_map_of_mem hs
    obtain ⟨x, -, hx⟩ := List.mem_map.mp hmem
    exact List.mem_of_getElem? hx
  have hrun := p.interns t (hknown.symm ▸ List.prefix_rfl : _ <+: t.names)
  rwa [hsymbols, hknown] at hrun

/-- Packages that are interned one after the other are equal exactly if their texts are. -/
theorem intern_eq_iff (p r : Package String) (t : NameTable) :
    (p.intern.run t).1 = (r.intern.run (p.intern.run t).2).1 ↔ p = r := by
  generalize hfirst : p.intern.run t = first
  generalize hsecond : r.intern.run first.2 = second
  obtain ⟨-, hp⟩ := hfirst ▸ p.resolve_intern t
  obtain ⟨htable, hr⟩ := hsecond ▸ r.resolve_intern first.2
  have hgrowth : first.2.names <+: second.2.names := by
    rw [htable]
    exact NameTable.prefix_internAll _ _
  have hshown : (Product.package first.1).map second.2.resolve? = (Product.package p).map some :=
    congrArg Product.package (hp _ hgrowth)
  have hshown' : (Product.package second.1).map second.2.resolve? = (Product.package r).map some :=
    congrArg Product.package (hr _ List.prefix_rfl)
  simpa using Product.eq_iff_shown hshown hshown'

end Package

end VhdlLowering
