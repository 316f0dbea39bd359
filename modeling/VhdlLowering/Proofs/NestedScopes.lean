import VhdlLowering.Proofs.Acceptance

/-!
# Packages inside packages

A package inside a package is lowered as it is by itself, whatever stands around it, and what it logs
is a piece of the log. A defect of an inner package is a defect of the outer one, and it is the one
that is told if nothing in front of it has a defect.
-/

namespace VhdlLowering

/-- The node of an item that is a package. -/
def DeclarativeItem.package? (item : DeclarativeItem) : Option Node :=
  match item.role with
  | .package => some item.node
  | _ => none

/-- The items of a package that are packages. -/
def Node.packages (n : Node) : List Node :=
  n.packageItems.filterMap fun c => (DeclarativeItem.classify c).package?

/-- The node that is reached by going from a package to one of its packages, again and again; each
time the packages of a scope are counted from zero. -/
def Node.packageAt? (n : Node) : List Nat → Option Node
  | [] => some n
  | i :: path => n.packages[i]?.bind fun m => m.packageAt? path

section Ast

variable {ν : Type}

def Declaration.package? : Declaration ν → Option (Package ν)
  | .package p => some p
  | .subprogram _ | .type _ | .subtype _ | .constant _ | .signal _ | .variable _ | .component _ =>
    none

/-- The declarations of a package that are packages. -/
def Package.packages (p : Package ν) : List (Package ν) :=
  p.declarations.filterMap Declaration.package?

/-- The declaration that is reached from package to package. -/
def Package.packageAt? (p : Package ν) : List Nat → Option (Package ν)
  | [] => some p
  | i :: path => (Package.packages p)[i]?.bind fun q => Package.packageAt? q path

end Ast

section Isolation

variable {file : FileId}

/-- The node by itself gives the package, and what it logs is a piece of the log. -/
def Package.Isolated (file : FileId) (log : Log) (m : Node) (p : Package String) : Prop :=
  ∃ entries : Log, (Package.ofNode ⟨file, false⟩ m : Lowering (Package String)).Yields p entries ∧
    entries <:+: log

theorem Package.Isolated.mono {log log' : Log} {m : Node} {p : Package String}
    (h : Isolated file log m p) (hlog : log <:+: log') : Isolated file log' m p := by
  obtain ⟨entries, hp, hentries⟩ := h
  exact ⟨entries, hp, hentries.trans hlog⟩

/-- Of what an item declares, the packages are what the item gives if it is a package. -/
theorem DeclarativeItem.isolated_package {item : DeclarativeItem}
    {ds : List (Declaration String)} {log : Log}
    (h : (item.lower ⟨file, false⟩ : Lowering (List (Declaration String))).Yields ds log) :
    List.Forall₂ (Package.Isolated file log) item.package?.toList
      (ds.filterMap Declaration.package?) := by
  obtain ⟨role, n⟩ := item
  have hnone (os : List (Object String)) (d : Object String → Declaration String)
      (hd : ∀ o, (d o).package? = none) : (os.map d).filterMap Declaration.package? = [] := by
    rw [List.filterMap_map]
    exact List.filterMap_eq_nil_iff.mpr fun o _ => hd o
  rw [lower] at h
  cases role with
  | package =>
    simp only [Lowering.yields_bind, Lowering.yields_pure] at h
    obtain ⟨p, entries, _, hp, ⟨rfl, rfl⟩, rfl⟩ := h
    rw [List.append_nil]
    exact .cons ⟨entries, hp, List.infix_rfl⟩ .nil
  | component | unsupported =>
    simp only [Lowering.yields_bind, Lowering.yields_pure] at h
    obtain ⟨_, _, _, -, ⟨rfl, rfl⟩, rfl⟩ := h
    exact .nil
  | subprogram | type | subtype =>
    obtain ⟨_, -, rfl, rfl⟩ := Lowering.yields_read_bind_pure.mp h
    exact .nil
  | constant | signal | «variable» =>
    obtain ⟨os, -, rfl, rfl⟩ := Lowering.yields_read_bind_pure.mp h
    rw [hnone os _ fun _ => rfl]
    exact .nil

/-- The packages among the items and the packages among what they declare agree one by one. -/
theorem DeclarativeItem.isolated_packages {cs : List Node}
    {blocks : List (List (Declaration String) × Log)}
    (h : List.Forall₂ (fun c block =>
      ((classify c).lower ⟨file, false⟩ : Lowering _).Yields block.1 block.2) cs blocks) :
    List.Forall₂ (Package.Isolated file (blocks.map Prod.snd).flatten)
      (cs.filterMap fun c => (classify c).package?)
      ((blocks.map Prod.fst).flatten.filterMap Declaration.package?) := by
  induction h with
  | nil => exact .nil
  | @cons c block cs blocks hblock _ ih =>
    have hfirst := isolated_package hblock
    have hitems : (c :: cs).filterMap (fun c => (classify c).package?) =
        (classify c).package?.toList ++ cs.filterMap fun c => (classify c).package? := by
      rw [List.filterMap_cons]
      cases (classify c).package? <;> rfl
    rw [hitems, List.map_cons, List.map_cons, List.flatten_cons, List.flatten_cons,
      List.filterMap_append]
    refine List.rel_append (hfirst.imp fun _ _ h => ?_) (ih.imp fun _ _ h => ?_)
    · exact h.mono (List.prefix_append _ _).isInfix
    · exact h.mono (List.suffix_append _ _).isInfix

theorem Package.isolated_packages {n : Node} {p : Package String} {log : Log}
    (h : (Package.ofNode ⟨file, false⟩ n : Lowering (Package String)).Yields p log) :
    List.Forall₂ (Isolated file log) n.packages (packages p) := by
  obtain ⟨-, -, -, -, blocks, hblocks, hdeclarations, rfl⟩ := yields_ofNode.mp h
  rw [packages, hdeclarations]
  refine (DeclarativeItem.isolated_packages hblocks).imp fun _ _ h => ?_
  exact h.mono (List.suffix_append _ _).isInfix

end Isolation

section Depth

variable {α β γ δ : Type} {R : α → β → Prop}

theorem rel_getElem? {as : List α} {bs : List β} (h : List.Forall₂ R as bs) (i : Nat) :
    Option.Rel R as[i]? bs[i]? := by
  induction h generalizing i with
  | nil => exact .none
  | cons hab _ ih =>
    cases i with
    | zero => exact .some hab
    | succ i => simpa using ih i

theorem rel_bind {S : γ → δ → Prop} {f : α → Option γ} {g : β → Option δ} {o : Option α}
    {o' : Option β} (h : Option.Rel R o o') (hf : ∀ a b, R a b → Option.Rel S (f a) (g b)) :
    Option.Rel S (o.bind f) (o'.bind g) := by
  cases h with
  | none => exact .none
  | some hab => exact hf _ _ hab

theorem rel_imp {S : α → β → Prop} {o : Option α} {o' : Option β} (h : Option.Rel R o o')
    (himp : ∀ a b, R a b → S a b) : Option.Rel S o o' := by
  cases h with
  | none => exact .none
  | some hab => exact .some (himp _ _ hab)

variable {file : FileId}

/-- On every path the tree and the package have an inner package both or neither, and the inner
package is what its node gives by itself. -/
theorem Package.isolated_packageAt (path : List Nat) {n : Node} {p : Package String} {log : Log}
    (h : (Package.ofNode ⟨file, false⟩ n : Lowering (Package String)).Yields p log) :
    Option.Rel (Isolated file log) (n.packageAt? path) (packageAt? p path) := by
  induction path generalizing n p log with
  | nil => exact .some ⟨log, h, List.infix_rfl⟩
  | cons i path ih =>
    refine rel_bind (rel_getElem? (isolated_packages h) i) fun m q hchild => ?_
    obtain ⟨entries, hq, hentries⟩ := hchild
    exact rel_imp (ih hq) fun _ _ hinner => hinner.mono hentries

end Depth

/-- A scope that is walked through, and its items in front of the one that is entered. -/
structure Level where
  scope : Node
  earlier : List Node

/-- The scopes that are walked through from a package down to an inner package. An item is entered
if it is classified as a package. -/
inductive Node.Encloses : Node → List Level → Node → Prop
  | self {n : Node} : Encloses n [] n
  | item {n c m : Node} {before after : List Node} {levels : List Level}
      (hkind : n.kind = .rule .packageDeclaration) (hitems : n.packageItems = before ++ c :: after)
      (hrole : (DeclarativeItem.classify c).role = .package)
      (hinner : Encloses (DeclarativeItem.classify c).node levels m) :
      Encloses n (⟨n, before⟩ :: levels) m

/-- In a session of its own the item is lowered without a defect. -/
def DeclarativeItem.LowersAlone (file : FileId) (item : DeclarativeItem) : Prop :=
  ∃ ds next, (item.lower ⟨file, false⟩ : SessionM (List (Declaration Symbol))).run Session.start =
    .ok ds next

/-- The walk of the scope, which starts when the name is read, gets past the items in front. -/
structure Level.Passes (file : FileId) (l : Level) : Prop where
  named : l.scope.IsNamed
  earlier : ∀ c ∈ l.earlier, (DeclarativeItem.classify c).LowersAlone file

section Defects

variable {file : FileId}

theorem DeclarativeItem.lowersAlone_iff {item : DeclarativeItem} :
    item.LowersAlone file ↔
      (item.lower ⟨file, false⟩ : Lowering (List (Declaration String))).Succeeds := by
  -- The run does not depend on the table, so the names at the end of the trace serve to find it.
  have hrun := item.replays_lower
    (T := Follower.names (Follower.followAll Session.start
      (item.lower ⟨file, false⟩ : Lowering (List (Declaration String))).trace))
    ⟨file, false⟩ (Package.replays_ofNode ⟨file, false⟩ item.node) Session.start List.prefix_rfl
  unfold LowersAlone Traced.Succeeds
  cases hy : (item.lower ⟨file, false⟩ : Lowering (List (Declaration String))).result with
  | error d =>
    rw [hy] at hrun
    simp [hrun]
  | ok ds =>
    rw [hy] at hrun
    obtain ⟨xs, hxs, -⟩ := hrun
    simp [hxs]

theorem DeclarativeItem.IsWellFormed.isPackage {item : DeclarativeItem} (h : item.IsWellFormed)
    (hrole : item.role = .package) : item.node.IsPackage := by
  cases h with
  | package h => exact h
  | _ => cases hrole

/-- A package encloses well-formed packages only, if it is well formed. -/
theorem Node.Encloses.isPackage {n m : Node} {levels : List Level} (h : n.Encloses levels m)
    (hn : n.IsPackage) : m.IsPackage := by
  induction h with
  | self => exact hn
  | @item n c m before after levels hkind hitems hrole _ ih =>
    cases hn with
    | intro _ _ hwell =>
      have hc : c ∈ n.packageItems := by simp [hitems]
      exact ih ((hwell c hc).isPackage hrole)

/-- A package stops at the defect of a package in it, if the name is read and the items in front of
the inner package have no defect. -/
theorem Package.result_ofNode_eq_error {n c : Node} {before after : List Node} {d : Defect}
    (hkind : n.kind = .rule .packageDeclaration) (hname : n.IsNamed)
    (hitems : n.packageItems = before ++ c :: after)
    (hbefore : ∀ b ∈ before, ((DeclarativeItem.classify b).lower ⟨file, false⟩ :
      Lowering (List (Declaration String))).Succeeds)
    (hrole : (DeclarativeItem.classify c).role = .package)
    (hinner : (Package.ofNode ⟨file, false⟩ (DeclarativeItem.classify c).node :
      Lowering (Package String)).result = .error d) :
    (Package.ofNode ⟨file, false⟩ n : Lowering (Package String)).result = .error d := by
  have hitem : ((DeclarativeItem.classify c).lower ⟨file, false⟩ :
      Lowering (List (Declaration String))).result = .error d := by
    rw [DeclarativeItem.lower, hrole]
    exact Traced.result_bind_eq_error.mpr (.inl hinner)
  have hdeclarations : (declarationsOf ⟨file, false⟩ n.packageItems :
      Lowering (List (Declaration String))).result = .error d := by
    rw [declarationsOf_eq_mapM, Traced.result_map_eq_error, hitems]
    exact Traced.result_mapM_eq_error_of hbefore hitem
  obtain ⟨name, hname⟩ := Node.succeeds_name.mpr hname
  obtain ⟨_, hheader⟩ : (n.skipHeader : Lowering Unit).Succeeds :=
    ⟨(), (Node.yields_skipHeader.mpr rfl).result⟩
  rw [ofNode]
  refine Traced.result_bind_eq_error.mpr (.inr ⟨(), Node.result_ensure_eq_ok.mpr hkind, ?_⟩)
  refine Traced.result_bind_eq_error.mpr (.inr ⟨name, hname, ?_⟩)
  refine Traced.result_bind_eq_error.mpr (.inr ⟨(), hheader, ?_⟩)
  exact Traced.result_bind_eq_error.mpr (.inl hdeclarations)

/-- A defect passes outwards through every scope whose walk gets to it. -/
theorem Node.Encloses.result_eq_error {n m : Node} {levels : List Level} {d : Defect}
    (h : n.Encloses levels m) (hlevels : ∀ l ∈ levels, l.Passes file)
    (hd : (Package.ofNode ⟨file, false⟩ m : Lowering (Package String)).result = .error d) :
    (Package.ofNode ⟨file, false⟩ n : Lowering (Package String)).result = .error d := by
  induction h with
  | self => exact hd
  | item hkind hitems hrole _ ih =>
    obtain ⟨hlevel, hlevels⟩ := List.forall_mem_cons.mp hlevels
    refine Package.result_ofNode_eq_error hkind hlevel.named hitems (fun b hb => ?_) hrole
      (ih hlevels hd)
    exact DeclarativeItem.lowersAlone_iff.mp (hlevel.earlier b hb)

end Defects

namespace Session

variable {file : FileId} {n m : Node}

theorem step_package_fails_iff {s : Session} {d : Defect} :
    (s.step (.lower .package ⟨file, false⟩ n)).1 = .error d ↔
      (Package.ofNode ⟨file, false⟩ n : Lowering (Package String)).result = .error d :=
  step_fails_iff.trans Traced.result_map_eq_error

/-- If the package that was handed out contains a package, at any depth, its node gives the same
package in a session of its own, and logs there a piece of what was logged. If an enclosed package has
a defect, so does the package; it is the same defect if the walks of the scopes in between get to
the enclosed package. -/
theorem nested_isolated (s : Session) (file : FileId) (n : Node) :
    (∀ p, (s.step (.lower .package ⟨file, false⟩ n)).1 = .ok (some p) →
      ∃ (q : Package String) (entries : Log),
        p.map (s.step (.lower .package ⟨file, false⟩ n)).2.names.resolve? =
          .package (Package.map some q) ∧
        (s.step (.lower .package ⟨file, false⟩ n)).2.log = s.log ++ entries ∧
        ∀ path, Option.Rel (fun m r => ∃ log,
          GivesAlone .package ⟨file, false⟩ m (.package r) log ∧ log <:+: entries)
          (n.packageAt? path) (Package.packageAt? q path)) ∧
    (∀ levels m d, n.Encloses levels m →
      (Step.lower .package ⟨file, false⟩ m).alone.1 = .error d →
      ∃ d', (s.step (.lower .package ⟨file, false⟩ n)).1 = .error d' ∧
        ((∀ l ∈ levels, l.Passes file) → d' = d)) := by
  constructor
  · intro p hp
    obtain ⟨product, entries, hproduct, hnames, hlog⟩ := yields_of_step hp
    rw [Target.lower, Lowering.yields_map] at hproduct
    obtain ⟨q, hq, rfl⟩ := hproduct
    refine ⟨q, entries, hnames, hlog, fun path => ?_⟩
    refine rel_imp (Package.isolated_packageAt path hq) fun m r h => ?_
    obtain ⟨log, hr, hlog⟩ := h
    exact ⟨log, givesAlone_package_iff.mpr hr, hlog⟩
  · intro levels m d hm hd
    have hinner := step_package_fails_iff.mp hd
    have hfails : ¬(Package.ofNode ⟨file, false⟩ n : Lowering (Package String)).Succeeds := by
      intro h
      obtain ⟨r, hr⟩ := Package.succeeds_ofNode.mpr (hm.isPackage (Package.succeeds_ofNode.mp h))
      cases hr.symm.trans hinner
    cases houter : (Package.ofNode ⟨file, false⟩ n : Lowering (Package String)).result with
    | ok r => exact absurd ⟨r, houter⟩ hfails
    | error d' =>
      refine ⟨d', step_package_fails_iff.mpr houter, fun hlevels => ?_⟩
      cases houter.symm.trans (hm.result_eq_error hlevels hinner)
      rfl

/-- An alias, which is skipped, and a constant. -/
def twoItems : List Node :=
  [.leaf (.rule .aliasDeclaration) ⟨1, 2⟩ "alias",
    .branch (.rule .constantDeclaration) ⟨3, 5⟩
      [.branch (.rule .identifierList) ⟨3, 4⟩ [.leaf (.rule .identifier) ⟨3, 4⟩ "c"],
        .leaf (.rule .subtypeIndication) ⟨4, 5⟩ "bit"]]

/-- A package with the two items in front of other items. -/
def scopeOf (span : Span) (name : String) (inner : List Node) : Node :=
  .branch (.rule .packageDeclaration) span
    [.leaf (.rule .identifier) ⟨0, 1⟩ name,
      .branch (.rule .packageDeclarativePart) ⟨1, 9⟩ (twoItems ++ inner)]

def innermost (name : String) : Node := scopeOf ⟨6, 9⟩ name []

def middle (name : String) : Node := scopeOf ⟨5, 10⟩ "q" [innermost name]

/-- A package in a package in a package. -/
def threeScopes (name : String) : Node := scopeOf ⟨0, 12⟩ "p" [middle name]

theorem passes_scopeOf {span : Span} {name : String} {inner : List Node}
    (hnamed : (scopeOf span name inner).IsNamed) :
    Level.Passes ⟨0⟩ ⟨scopeOf span name inner, twoItems⟩ := by
  have hitems : ∀ c ∈ twoItems, ((DeclarativeItem.classify c).lower ⟨⟨0⟩, false⟩ :
      Lowering (List (Declaration String))).Succeeds := by
    decide +kernel
  exact ⟨hnamed, fun c hc => DeclarativeItem.lowersAlone_iff.mpr (hitems c hc)⟩

/-- With a name the innermost package is lowered as it is by itself; without one it takes the outer
packages with it. -/
theorem threeScopes_isolated :
    (∃ p, (start.step (.lower .package ⟨⟨0⟩, false⟩ (threeScopes "r"))).1 = .ok (some p) ∧
      ∃ (q : Package String) (entries : Log),
        p.map (start.step (.lower .package ⟨⟨0⟩, false⟩ (threeScopes "r"))).2.names.resolve? =
          .package (Package.map some q) ∧
        (start.step (.lower .package ⟨⟨0⟩, false⟩ (threeScopes "r"))).2.log =
          start.log ++ entries ∧
        ∀ path, Option.Rel (fun m r => ∃ log,
          GivesAlone .package ⟨⟨0⟩, false⟩ m (.package r) log ∧ log <:+: entries)
          ((threeScopes "r").packageAt? path) (Package.packageAt? q path)) ∧
    (threeScopes "r").packageAt? [0, 0] = some (innermost "r") ∧
    let d : Defect := .missing (.rule .packageDeclaration) .identifier ⟨6, 3⟩
    (Step.lower .package ⟨⟨0⟩, false⟩ (innermost "")).alone.1 = .error d ∧
      (start.step (.lower .package ⟨⟨0⟩, false⟩ (threeScopes ""))).1 = .error d := by
  obtain ⟨hsucceeds, -⟩ := nested_isolated start ⟨0⟩ (threeScopes "r")
  obtain ⟨-, hfails⟩ := nested_isolated start ⟨0⟩ (threeScopes "")
  obtain ⟨p, hp⟩ : ∃ p,
      (start.step (.lower .package ⟨⟨0⟩, false⟩ (threeScopes "r"))).1 = .ok (some p) :=
    step_succeeds_iff.mpr (by decide +kernel)
  refine ⟨⟨p, hp, hsucceeds p hp⟩, by decide +kernel, ?_⟩
  intro d
  have hd : (Step.lower .package ⟨⟨0⟩, false⟩ (innermost "")).alone.1 = .error d := by
    decide +kernel
  have hencloses : (threeScopes "").Encloses
      [⟨threeScopes "", twoItems⟩, ⟨middle "", twoItems⟩] (innermost "") :=
    .item rfl rfl (by decide +kernel) (.item rfl rfl (by decide +kernel) .self)
  have hpasses : ∀ l ∈ [⟨threeScopes "", twoItems⟩, ⟨middle "", twoItems⟩], Level.Passes ⟨0⟩ l :=
    List.forall_mem_cons.mpr ⟨passes_scopeOf ⟨_, rfl, by decide +kernel⟩,
      List.forall_mem_singleton.mpr (passes_scopeOf ⟨_, rfl, by decide +kernel⟩)⟩
  obtain ⟨d', hd', hsame⟩ := hfails _ _ d hencloses hd
  exact ⟨hd, hsame hpasses ▸ hd'⟩

end Session

end VhdlLowering
