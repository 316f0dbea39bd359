import VhdlLowering.Proofs.Interning
import VhdlLowering.Proofs.Isolation

/-!
# Trees and the texts of their names

In one session no two symbols stand for the same name, so a tree over symbols can be rebuilt from
the tree over texts that it is shown as. Trees of one session are equal exactly if they are shown
alike, and a tree that is lowered a second time gives the tree of the first time.
-/

namespace VhdlLowering

section Congruence

variable {ν μ : Type} {f g : ν → μ}

theorem Object.map_congr_list {os : List (Object ν)} (h : ∀ x ∈ os.map Object.name, f x = g x) :
    os.map (Object.map f) = os.map (Object.map g) := by
  refine List.map_congr_left fun o ho => ?_
  simp [Object.map, h o.name (List.mem_map_of_mem ho)]

theorem Subprogram.map_congr {d : Subprogram ν} (h : ∀ x ∈ d.names, f x = g x) :
    d.map f = d.map g := by
  obtain ⟨hname, hparams⟩ := List.forall_mem_cons.mp h
  simp [Subprogram.map, hname, Object.map_congr_list hparams]

theorem TypeDefinition.map_congr {d : TypeDefinition ν} (h : ∀ x ∈ d.names, f x = g x) :
    d.map f = d.map g := by
  cases d with
  | enumeration literals => exact congrArg TypeDefinition.enumeration (List.map_congr_left h)
  | incomplete => rfl
  | verbatim e => rfl

theorem TypeDecl.map_congr {d : TypeDecl ν} (h : ∀ x ∈ d.names, f x = g x) :
    d.map f = d.map g := by
  obtain ⟨hname, hdefinition⟩ := List.forall_mem_cons.mp h
  simp [TypeDecl.map, hname, TypeDefinition.map_congr hdefinition]

theorem Component.map_congr {d : Component ν} (h : ∀ x ∈ d.names, f x = g x) :
    d.map f = d.map g := by
  obtain ⟨hname, hobjects⟩ := List.forall_mem_cons.mp h
  obtain ⟨hgenerics, hports⟩ := List.forall_mem_append.mp hobjects
  simp [Component.map, hname, Object.map_congr_list hgenerics, Object.map_congr_list hports]

mutual

theorem Declaration.map_congr : ∀ d : Declaration ν, (∀ x ∈ d.names, f x = g x) → d.map f = d.map g
  | .subprogram _, h => congrArg Declaration.subprogram (Subprogram.map_congr h)
  | .type _, h => congrArg Declaration.type (TypeDecl.map_congr h)
  | .subtype d, h => by
    simp [Declaration.map, SubtypeDecl.map, h d.name (List.mem_singleton_self _)]
  | .constant d, h => by
    simp [Declaration.map, Object.map, h d.name (List.mem_singleton_self _)]
  | .signal d, h => by
    simp [Declaration.map, Object.map, h d.name (List.mem_singleton_self _)]
  | .variable d, h => by
    simp [Declaration.map, Object.map, h d.name (List.mem_singleton_self _)]
  | .package ⟨name, only, ds, span⟩, h => by
    obtain ⟨hname, hds⟩ := List.forall_mem_cons.mp h
    simp [Declaration.map, hname, Declaration.mapList_congr ds hds]
  | .component _, h => congrArg Declaration.component (Component.map_congr h)

theorem Declaration.mapList_congr : ∀ ds : List (Declaration ν),
    (∀ x ∈ Declaration.namesOf ds, f x = g x) → Declaration.mapList f ds = Declaration.mapList g ds
  | [], _ => rfl
  | d :: ds, h => by
    obtain ⟨hd, hds⟩ := List.forall_mem_append.mp h
    simp [Declaration.mapList, Declaration.map_congr d hd, Declaration.mapList_congr ds hds]

end

theorem Package.map_congr {p : Package ν} (h : ∀ x ∈ Package.names p, f x = g x) :
    Package.map f p = Package.map g p := by
  rw [← Declaration.names_package] at h
  have hmap := Declaration.map_congr _ h
  rw [Declaration.map_package, Declaration.map_package] at hmap
  exact Declaration.package.inj hmap

theorem Product.map_congr {p : Product ν} (h : ∀ x ∈ p.names, f x = g x) : p.map f = p.map g := by
  cases p with
  | package p => exact congrArg Product.package (Package.map_congr h)
  | component c => exact congrArg Product.component (Component.map_congr h)
  | packages ps =>
    refine congrArg Product.packages (List.map_congr_left fun p hp => Package.map_congr ?_)
    exact fun x hx => h x (List.mem_flatMap.mpr ⟨p, hp, hx⟩)

end Congruence

/-- The symbol of a name in a table that holds it. -/
def NameTable.symbolOf (t : NameTable) (s : String) : Symbol := ⟨t.names.idxOf s⟩

/-- A name has one symbol only. -/
theorem NameTable.symbolOf_of_resolve? {t : NameTable} {x : Symbol} {s : String}
    (h : t.resolve? x = some s) : t.symbolOf s = x := by
  obtain ⟨hlt, rfl⟩ := List.getElem?_eq_some_iff.mp h
  simp [symbolOf, t.nodup.idxOf_getElem]

/-- A tree all of whose symbols have a name is rebuilt from the tree that it is shown as. -/
theorem Product.map_symbolOf {t : NameTable} {p : Product Symbol} {q : Product String}
    (h : p.map t.resolve? = q.map some) : q.map t.symbolOf = p := by
  have hnames : p.names.map t.resolve? = q.names.map some := by
    rw [← Product.names_map, h, Product.names_map]
  have hsymbol : ∀ x ∈ p.names, t.symbolOf (t.nameOf x) = x := by
    intro x hx
    have hmem : t.resolve? x ∈ q.names.map some := hnames ▸ List.mem_map_of_mem hx
    obtain ⟨s, -, hs⟩ := List.mem_map.mp hmem
    rw [NameTable.nameOf, ← hs]
    exact NameTable.symbolOf_of_resolve? hs.symm
  calc
    q.map t.symbolOf = (p.map t.nameOf).map t.symbolOf := by rw [Product.map_nameOf h]
    _ = p.map (t.symbolOf ∘ t.nameOf) := Product.map_map _ _ p
    _ = p.map id := Product.map_congr hsymbol
    _ = p := p.map_id

/-- Trees that are shown in one table are equal exactly if they are shown alike. -/
theorem Product.eq_iff_shown {t : NameTable} {x y : Product Symbol}
    {a b : Product String} (hx : x.map t.resolve? = a.map some)
    (hy : y.map t.resolve? = b.map some) : x = y ↔ a = b := by
  constructor
  · rintro rfl
    rw [← Product.map_nameOf hx, Product.map_nameOf hy]
  · rintro rfl
    rw [← Product.map_symbolOf hx, Product.map_symbolOf hy]

/-- The packages and components of what is handed out, one by one. -/
def Product.parts {ν : Type} : Product ν → List (Product ν)
  | package p => [.package p]
  | component c => [.component c]
  | packages ps => ps.map .package

theorem Product.parts_map {ν μ : Type} (f : ν → μ) (p : Product ν) :
    (p.map f).parts = p.parts.map (Product.map f) := by
  cases p <;> simp [parts, map]

/-- If what is handed out can be shown, so can each of its parts. -/
theorem Product.exists_of_mem_parts {t : NameTable} {p x : Product Symbol} {q : Product String}
    (h : p.map t.resolve? = q.map some) (hx : x ∈ p.parts) :
    ∃ a : Product String, x.map t.resolve? = a.map some := by
  have hmem : x.map t.resolve? ∈ q.parts.map (Product.map some) := by
    rw [← parts_map, ← h, parts_map]
    exact List.mem_map_of_mem hx
  obtain ⟨a, -, ha⟩ := List.mem_map.mp hmem
  exact ⟨a, ha.symm⟩

namespace Session

open Follower

/-- An answer is rebuilt from what it says. -/
theorem Answer.Says.map_symbolOf {t : NameTable} {a : Answer Symbol} {r : Answer String}
    (h : a.Says t r) : r.map t.symbolOf = a := by
  cases a with
  | error d =>
    cases r with
    | error e =>
      cases h
      rfl
    | ok q => cases h
  | ok p =>
    cases r with
    | error e => cases h
    | ok q =>
      have hshown := Except.ok.inj h
      cases p <;> cases q
      · rfl
      · cases hshown
      · cases hshown
      · exact congrArg (fun p => Except.ok (some p)) (Product.map_symbolOf (Option.some.inj hshown))

/-- In one table an answer is all that it says. -/
theorem Answer.Says.unique {t : NameTable} {a b : Answer Symbol} {r : Answer String}
    (ha : a.Says t r) (hb : b.Says t r) : a = b :=
  ha.map_symbolOf.symm.trans hb.map_symbolOf

/-- What was handed out in a session can be shown at its end. -/
theorem says_of_mem_run {s : Session} {xs : List Step} {a : Answer Symbol}
    (h : a ∈ (s.run xs).1) : ∃ x ∈ xs, a.Says (s.run xs).2.names x.meaning := by
  induction xs generalizing s with
  | nil => cases h
  | cons x xs ih =>
    rcases List.mem_cons.mp h with rfl | h
    · exact ⟨x, by simp, (s.step_spec x).2 _ (prefix_run _ xs)⟩
    · obtain ⟨y, hy, hsays⟩ := ih h
      exact ⟨y, by simp [hy], hsays⟩

/-- The packages and components of an answer. -/
def Answer.parts {ν : Type} : Answer ν → List (Product ν)
  | .ok (some p) => p.parts
  | .ok none | .error _ => []

theorem shown_of_mem_parts {s : Session} {xs : List Step} {x : Product Symbol}
    (h : x ∈ (s.run xs).1.flatMap Answer.parts) :
    ∃ a : Product String, x.map (s.run xs).2.names.resolve? = a.map some := by
  obtain ⟨answer, hanswer, hx⟩ := List.mem_flatMap.mp h
  obtain ⟨y, -, hsays⟩ := says_of_mem_run hanswer
  match answer, hmeaning : y.meaning with
  | .ok (some p), .ok (some q) =>
    rw [hmeaning] at hsays
    exact Product.exists_of_mem_parts (Option.some.inj (Except.ok.inj hsays)) hx
  | .ok (some p), .ok none =>
    rw [hmeaning] at hsays
    cases Except.ok.inj hsays
  | .ok (some p), .error d =>
    rw [hmeaning] at hsays
    cases hsays
  | .ok none, _ => cases hx
  | .error d, _ => cases hx

/-- Steps whose names are known leave the table as it is. -/
theorem names_step_of_known {s : Session} {x : Step}
    (h : ∀ name ∈ x.trace.filterMap Event.name?, name ∈ s.names.names) :
    (s.step x).2.names = s.names :=
  (s.names_step x).trans (NameTable.internAll_of_known h)

/-- A step that is done again gives the answer of the first time and leaves the same entries in the
log, and all its names are known. -/
theorem step_again (s : Session) (x : Step) (between : List Step) :
    let later := ((s.step x).2.run between).2
    (later.step x).1 = (s.step x).1 ∧ (later.step x).2.names = later.names ∧
      ∃ entries : Log, (s.step x).2.log = s.log ++ entries ∧
        (later.step x).2.log = later.log ++ entries := by
  intro later
  have hgrowth : (s.step x).2.names.names <+: later.names.names := prefix_run _ between
  have hknown : ∀ name ∈ x.trace.filterMap Event.name?, name ∈ later.names.names := by
    intro name hname
    apply hgrowth.subset
    rw [names_step]
    exact NameTable.mem_names_internAll.mpr (.inr hname)
  have hnames : (later.step x).2.names = later.names := names_step_of_known hknown
  have hfirst : (s.step x).1.Says later.names x.meaning := (s.step_spec x).2 _ hgrowth
  have hagain : (later.step x).1.Says later.names x.meaning :=
    (later.step_spec x).2 _ (hnames ▸ List.prefix_rfl)
  exact ⟨hagain.unique hfirst, hnames, _, s.log_step x, later.log_step x⟩

/-- In one session packages and components are equal exactly if they are shown alike. Lowered once
more, a tree gives the answer of the first time and the same entries of the log, and no name is new
to the table. -/
theorem equal_iff_shown_alike (s : Session) (xs : List Step) :
    (∀ x ∈ (s.run xs).1.flatMap Answer.parts, ∀ y ∈ (s.run xs).1.flatMap Answer.parts,
      ∃ a b : Product String, x.map (s.run xs).2.names.resolve? = a.map some ∧
        y.map (s.run xs).2.names.resolve? = b.map some ∧ ((x == y) = true ↔ a = b)) ∧
    ∀ (before between : List Step) (target : Target) (ctx : Context) (n : Node),
      let call := Step.lower target ctx n
      let first := (s.run before).2
      let later := ((first.step call).2.run between).2
      (later.step call).1 = (first.step call).1 ∧ (later.step call).2.names = later.names ∧
      ∃ entries : Log, (first.step call).2.log = first.log ++ entries ∧
        (later.step call).2.log = later.log ++ entries := by
  constructor
  · intro x hx y hy
    obtain ⟨a, ha⟩ := shown_of_mem_parts hx
    obtain ⟨b, hb⟩ := shown_of_mem_parts hy
    exact ⟨a, b, ha, hb, by rw [beq_iff_eq, Product.eq_iff_shown ha hb]⟩
  · intro before between target ctx n
    exact step_again _ _ between

/-- A package by itself and in a design file, from two files, with a call between that fails. -/
def samePackage : List Step :=
  let p : Node := .branch (.rule .packageDeclaration) ⟨0, 9⟩ [.leaf (.rule .identifier) ⟨8, 9⟩ "p"]
  let nameless : Node := .branch (.rule .packageDeclaration) ⟨0, 9⟩ []
  [.lower .package ⟨⟨0⟩, true⟩ p, .lower .package ⟨⟨0⟩, false⟩ nameless,
    .lower .designFile ⟨⟨0⟩, false⟩ (.branch (.rule .designFile) ⟨0, 9⟩ [p]),
    .lower .package ⟨⟨1⟩, true⟩ p]

theorem samePackage_equal :
    ((start.run samePackage).1.flatMap Answer.parts).length = 3 ∧
    ∀ x ∈ (start.run samePackage).1.flatMap Answer.parts,
      ∀ y ∈ (start.run samePackage).1.flatMap Answer.parts,
        ∃ a b : Product String, x.map (start.run samePackage).2.names.resolve? = a.map some ∧
          y.map (start.run samePackage).2.names.resolve? = b.map some ∧
          ((x == y) = true ↔ a = b) :=
  ⟨by decide +kernel, (equal_iff_shown_alike start samePackage).1⟩

end Session
end VhdlLowering
