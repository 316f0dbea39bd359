import VhdlLowering.Proofs.Blame
import VhdlLowering.Proofs.Likeness

/-!
# Where lowering stops

Lowering stops at the first defect that it comes upon. What it would come upon later, at the level of
the defect or at a level around it, does not count: trees that agree up to a defect are refused alike,
with the same entries of the log and the same names.
-/

namespace VhdlLowering

namespace Traced

variable {τ α β γ : Type}

/-- Two computations that stop at the same defect and leave the same trace in front of it. -/
structure StopAlike (x y : Traced τ α) : Prop where
  defect : ∃ d, x.result = .error d
  eq : x = y

theorem stopAlike_of_not_succeeds {x : Traced τ α} (h : ¬x.Succeeds) : StopAlike x x := by
  cases hx : x.result with
  | error d => exact ⟨⟨d, hx⟩, rfl⟩
  | ok a => exact absurd ⟨a, hx⟩ h

theorem StopAlike.bind {x y : Traced τ α} (h : StopAlike x y) (f g : α → Traced τ β) :
    StopAlike (x >>= f) (y >>= g) := by
  obtain ⟨⟨d, hd⟩, rfl⟩ := h
  rw [bind_of_error f hd, bind_of_error g hd]
  exact ⟨⟨d, rfl⟩, rfl⟩

/-- Whether or not `x` stops, both stop alike if what comes next does. -/
theorem stopAlike_bind (x : Traced τ α) {f g : α → Traced τ β} (h : ∀ a, StopAlike (f a) (g a)) :
    StopAlike (x >>= f) (x >>= g) := by
  cases hx : x.result with
  | error d =>
    rw [bind_of_error f hx, bind_of_error g hx]
    exact ⟨⟨d, rfl⟩, rfl⟩
  | ok a =>
    rw [bind_of_ok f hx, bind_of_ok g hx, (h a).eq]
    obtain ⟨d, hd⟩ := (h a).defect
    exact ⟨⟨d, (h a).eq ▸ hd⟩, rfl⟩

theorem StopAlike.map {x y : Traced τ α} (h : StopAlike x y) (f : α → β) :
    StopAlike (f <$> x) (f <$> y) := by
  rw [map_eq_pure_bind, map_eq_pure_bind]
  exact h.bind _ _

theorem StopAlike.read {x y : Naming α} (h : StopAlike x y) :
    StopAlike (read x : Lowering α) (read y) := by
  obtain ⟨⟨d, hd⟩, rfl⟩ := h
  exact ⟨⟨d, hd⟩, rfl⟩

/-- What comes after the step that stops does not count. -/
theorem StopAlike.mapM {f : γ → Traced τ α} {c d : γ} (h : StopAlike (f c) (f d))
    (before rest rest' : List γ) :
    StopAlike ((before ++ c :: rest).mapM f) ((before ++ d :: rest').mapM f) := by
  induction before with
  | nil =>
    rw [List.nil_append, List.nil_append, List.mapM_cons, List.mapM_cons]
    exact h.bind _ _
  | cons b before ih =>
    rw [List.cons_append, List.cons_append, List.mapM_cons, List.mapM_cons]
    exact stopAlike_bind _ fun _ => ih.bind _ _

/-- If only a value is made of what is given, then not that is what stops. -/
theorem stopAlike_of_bind_pure {x y : Traced τ α} {f : α → β}
    (h : StopAlike (x >>= fun a => pure (f a)) (y >>= fun a => pure (f a))) : StopAlike x y := by
  have hstops {z : Traced τ α} {d : Defect}
      (hz : (z >>= fun a => pure (f a)).result = .error d) : z = ⟨.error d, z.trace⟩ := by
    rcases result_bind_eq_error.mp hz with hz | ⟨a, -, ha⟩
    · rw [← hz]
    · cases ha
  obtain ⟨d, hd⟩ := h.defect
  have hx := hstops hd
  have hy := hstops (h.eq ▸ hd)
  have htrace := congrArg Traced.trace h.eq
  rw [bind_of_error _ (congrArg result hx), bind_of_error _ (congrArg result hy)] at htrace
  exact ⟨⟨d, congrArg result hx⟩, by rw [hx, hy, show x.trace = y.trace from htrace]⟩

end Traced

open Traced

namespace Node

/-- Nodes that are told and named alike. -/
structure SameOpening (m n : Node) : Prop extends m.SameHead n where
  identifier : m.child? (.rule .identifier) = n.child? (.rule .identifier)

/-- Nodes that agree up to a name that cannot be read. -/
structure CutAtName (m n : Node) : Prop extends m.SameOpening n where
  unnamed : ¬m.IsNamed

/-- Declarations that agree up to an identifier without text. -/
structure CutAtIdentifier (m n : Node) : Prop extends m.SameHead n where
  identifiers : ∃ before c rest rest', m.identifiers = before ++ c :: rest ∧
    n.identifiers = before ++ c :: rest' ∧ c.sourceText = ""

/-- Declarations of interface objects that agree up to a defect: an identifier, a mode, or the type,
which comes last. -/
inductive CutObject : Node → Node → Prop
  | identifier {m n : Node} (h : m.CutAtIdentifier n) : CutObject m n
  | mode {m n mode : Node} (head : m.SameHead n) (hidentifiers : m.identifiers = n.identifiers)
      (hm : m.child? (.rule .mode) = some mode) (hn : n.child? (.rule .mode) = some mode)
      (hmode : ¬mode.IsMode) : CutObject m n
  | type {n : Node} (h : ¬n.IsInterfaceObject) : CutObject n n

/-- Clauses that agree up to an object declaration with a defect. -/
inductive CutClause : Node → Node → Prop
  | intro {m n c d : Node} (before : List InterfaceItem) {rest rest' : List InterfaceItem}
      (hm : m.interfaceItems = before ++ .object c :: rest)
      (hn : n.interfaceItems = before ++ .object d :: rest') (h : c.CutObject d) : CutClause m n

/-- Specifications of subprograms that agree up to the designator, up to a parameter, or up to the
end of a list that holds something else. -/
inductive CutSpecification : Node → Node → Prop
  | designator {m n : Node} (head : m.SameOpening n)
      (hdesignator : m.child? (.rule .designator) = n.child? (.rule .designator))
      (h : ¬(m.designator : Naming String).Succeeds) : CutSpecification m n
  | parameter {m n list list' : Node} (head : m.SameOpening n)
      (hdesignator : m.child? (.rule .designator) = n.child? (.rule .designator))
      (hm : m.child? (.rule .formalParameterList) = some list)
      (hn : n.child? (.rule .formalParameterList) = some list') (h : list.CutClause list') :
      CutSpecification m n
  | parameters {m n list : Node} (head : m.SameOpening n)
      (hdesignator : m.child? (.rule .designator) = n.child? (.rule .designator))
      (hm : m.child? (.rule .formalParameterList) = some list)
      (hn : n.child? (.rule .formalParameterList) = some list) (h : ¬list.IsParameterList) :
      CutSpecification m n

end Node

/-- Items that agree up to a defect. The defect may be one of the item itself, or it is a defect of a
clause of a component or of an item of a package. -/
inductive DeclarativeItem.Cut (ctx : Context) : DeclarativeItem → DeclarativeItem → Prop
  | item {item : DeclarativeItem}
      (h : ¬(item.lower ctx : Lowering (List (Declaration String))).Succeeds) : Cut ctx item item
  | name {role : Role} {m n : Node}
      (hrole : role = .package ∨ role = .component ∨ role = .subtype) (h : m.CutAtName n) :
      Cut ctx ⟨role, m⟩ ⟨role, n⟩
  | typeName {m n : Node} (h : m.typeParts.CutAtName n.typeParts) : Cut ctx ⟨.type, m⟩ ⟨.type, n⟩
  | identifier {role : Role} {m n : Node}
      (hrole : role = .constant ∨ role = .signal ∨ role = .variable) (h : m.CutAtIdentifier n) :
      Cut ctx ⟨role, m⟩ ⟨role, n⟩
  | subprogram {m n outer outer' spec spec' : Node} {kind : SubprogramKind}
      (hm : m.child? (.rule .subprogramSpecification) = some outer)
      (hn : n.child? (.rule .subprogramSpecification) = some outer')
      (hspec : outer.Specifies kind spec) (hspec' : outer'.Specifies kind spec')
      (h : spec.CutSpecification spec') : Cut ctx ⟨.subprogram, m⟩ ⟨.subprogram, n⟩
  | generics {m n clause clause' : Node} (hfull : ctx.hierarchyOnly = false)
      (opening : m.SameOpening n) (hm : m.child? (.rule .genericClause) = some clause)
      (hn : n.child? (.rule .genericClause) = some clause') (h : clause.CutClause clause') :
      Cut ctx ⟨.component, m⟩ ⟨.component, n⟩
  | ports {m n clause clause' : Node} (hfull : ctx.hierarchyOnly = false)
      (opening : m.SameOpening n)
      (hgenerics : m.child? (.rule .genericClause) = n.child? (.rule .genericClause))
      (hm : m.child? (.rule .portClause) = some clause)
      (hn : n.child? (.rule .portClause) = some clause') (h : clause.CutClause clause') :
      Cut ctx ⟨.component, m⟩ ⟨.component, n⟩
  | package {m n c d : Node} (hfull : ctx.hierarchyOnly = false) (opening : m.SameOpening n)
      (hheader : m.child? (.rule .packageHeader) = n.child? (.rule .packageHeader))
      (before : List Node) {rest rest' : List Node} (hm : m.packageItems = before ++ c :: rest)
      (hn : n.packageItems = before ++ d :: rest') (h : Cut ctx (classify c) (classify d)) :
      Cut ctx ⟨.package, m⟩ ⟨.package, n⟩

/-- Trees that agree up to a defect. -/
inductive Target.Cut (ctx : Context) : Target → Node → Node → Prop
  | kind {target : Target} {m n : Node} (head : m.SameHead n) (h : m.kind ≠ .rule target.rule) :
      Cut ctx target m n
  | package {m n : Node} (h : DeclarativeItem.Cut ctx ⟨.package, m⟩ ⟨.package, n⟩) :
      Cut ctx .package m n
  | component {m n : Node} (h : DeclarativeItem.Cut ctx ⟨.component, m⟩ ⟨.component, n⟩) :
      Cut ctx .component m n
  | designFile {m n p q : Node} (head : m.SameHead n) (before : List Node) {rest rest' : List Node}
      (hm : m.unitParts = before ++ p :: rest) (hn : n.unitParts = before ++ q :: rest')
      (hp : p.kind.isContext = false ∧ p.libraryUnit.kind = .rule .packageDeclaration)
      (hq : q.kind.isContext = false ∧ q.libraryUnit.kind = .rule .packageDeclaration)
      (h : DeclarativeItem.Cut ctx ⟨.package, p.libraryUnit⟩ ⟨.package, q.libraryUnit⟩) :
      Cut ctx .designFile m n

namespace Node

variable {m n : Node} {file : FileId} {kind : ObjectKind}

theorem SameHead.nameBy {ν : Type} {r : Type → Type} [MonadNaming ν r] (h : m.SameHead n)
    (ident : Node) : (m.nameBy ident : r ν) = n.nameBy ident := by
  rw [Node.nameBy, Node.nameBy, h.missingIn]

theorem SameOpening.name {ν : Type} {r : Type → Type} [MonadNaming ν r] (h : m.SameOpening n) :
    (m.name : r ν) = n.name := by
  rw [Node.name, Node.name, required, required, h.identifier, h.missingIn]
  simp only [h.nameBy]

theorem CutAtName.stopAlike (h : m.CutAtName n) :
    StopAlike (m.name : Naming String) n.name := by
  rw [← h.name]
  exact stopAlike_of_not_succeeds (succeeds_name.not.mpr h.unnamed)

theorem CutAtIdentifier.stopAlike (h : m.CutAtIdentifier n) :
    StopAlike (m.names : Naming (List String)) n.names := by
  obtain ⟨before, c, rest, rest', hm, hn, hblank⟩ := h.identifiers
  have hc : ¬(m.nameBy c : Naming String).Succeeds := fun hc => succeeds_nameBy.mp hc hblank
  have hnameBy : (m.nameBy : Node → Naming String) = n.nameBy := funext h.nameBy
  rw [names, names, hm, hn, ← hnameBy]
  exact ((stopAlike_of_not_succeeds hc).mapM before rest rest').bind _ _

theorem CutObject.stopAlike (h : m.CutObject n) :
    StopAlike (m.interfaceObjects file kind : Naming (List (Object String)))
      (n.interfaceObjects file kind) := by
  cases h with
  | identifier h => exact h.stopAlike.bind _ _
  | type h => exact stopAlike_of_not_succeeds (succeeds_interfaceObjects.not.mpr h)
  | mode head hidentifiers hm hn hmode =>
    have hnames : (m.names : Naming (List String)) = n.names := by
      rw [names, names, hidentifiers, funext head.nameBy, head.kind, head.span]
    have hdirection : StopAlike (m.direction kind : Naming (Option Direction)) (n.direction kind) := by
      have hstops : ¬(m.direction kind : Naming (Option Direction)).Succeeds :=
        fun h => hmode (succeeds_direction.mp h _ hm)
      have heq : (m.direction kind : Naming (Option Direction)) = n.direction kind := by
        simp only [direction, hm, hn]
      rw [← heq]
      exact stopAlike_of_not_succeeds hstops
    rw [interfaceObjects, interfaceObjects, hnames]
    exact stopAlike_bind _ fun _ => hdirection.bind _ _

theorem CutClause.stopAlike (h : m.CutClause n) :
    StopAlike (InterfaceList.ofNode file kind m : Naming (InterfaceList String))
      (InterfaceList.ofNode file kind n) := by
  obtain ⟨before, hm, hn, h⟩ := h
  rw [InterfaceList.ofNode, InterfaceList.ofNode, hm, hn]
  have hobjects : StopAlike (InterfaceList.itemObjects file kind (.object _) :
      Naming (List (Object String))) (InterfaceList.itemObjects file kind (.object _)) := h.stopAlike
  exact (hobjects.mapM before _ _).bind _ _

theorem CutClause.stopAlike_ofChild {clause : Rule} {c d : Node}
    (hm : m.child? (.rule clause) = some c) (hn : n.child? (.rule clause) = some d)
    (h : c.CutClause d) :
    StopAlike (InterfaceList.ofChild file kind clause m : Naming (InterfaceList String))
      (InterfaceList.ofChild file kind clause n) := by
  rw [InterfaceList.ofChild, InterfaceList.ofChild, hm, hn]
  exact h.stopAlike

theorem SameOpening.designator (h : m.SameOpening n)
    (hdesignator : m.child? (.rule .designator) = n.child? (.rule .designator)) :
    (m.designator : Naming String) = n.designator := by
  rw [Node.designator, Node.designator, hdesignator, h.name]
  simp only [h.nameBy]

/-- Parameters that stop alike; what is returned comes after them. -/
theorem CutSpecification.stopAlike {β : Type} (h : m.CutSpecification n)
    (f g : String → List (Object String) → Naming β) :
    StopAlike (do f (← m.designator) (← m.parameters file))
      (do g (← n.designator) (← n.parameters file)) := by
  cases h with
  | designator head hdesignator h =>
    rw [← head.designator hdesignator]
    exact (stopAlike_of_not_succeeds h).bind _ _
  | parameter head hdesignator hm hn h =>
    rw [← head.designator hdesignator]
    refine stopAlike_bind _ fun name => StopAlike.bind ?_ _ _
    simp only [Node.parameters, hm, hn]
    exact h.stopAlike.bind _ _
  | parameters head hdesignator hm hn h =>
    rw [← head.designator hdesignator]
    refine stopAlike_bind _ fun name => StopAlike.bind ?_ _ _
    have heq : (m.parameters file : Naming (List (Object String))) = n.parameters file := by
      simp only [Node.parameters, hm, hn]
    rw [← heq]
    exact stopAlike_of_not_succeeds fun hsucceeds => h (succeeds_parameters.mp hsucceeds _ hm)

theorem Specifies.subprogramParts {outer spec : Node} {kind : SubprogramKind}
    (h : outer.Specifies kind spec) :
    (outer.subprogramParts : Naming (SubprogramKind × Node)) = pure (kind, spec) := by
  cases h with
  | function hf => simp only [Node.subprogramParts, hf]
  | procedure hf hp => simp only [Node.subprogramParts, hf, hp]

end Node

theorem Subprogram.stopAlike_ofNode {file : FileId} {m n outer outer' spec spec' : Node}
    {kind : SubprogramKind} (hm : m.child? (.rule .subprogramSpecification) = some outer)
    (hn : n.child? (.rule .subprogramSpecification) = some outer')
    (hspec : outer.Specifies kind spec) (hspec' : outer'.Specifies kind spec')
    (h : spec.CutSpecification spec') :
    StopAlike (Subprogram.ofNode file m : Naming (Subprogram String))
      (Subprogram.ofNode file n) := by
  simp only [ofNode, Node.required, require, hm, hn, pure_bind, hspec.subprogramParts,
    hspec'.subprogramParts]
  exact h.stopAlike _ _

section Scopes

variable {ctx : Context} {m n : Node}

/-- A scope whose opening is read alike goes on, or else it has stopped already. -/
theorem Node.SameOpening.stopAlike {β : Type} (h : m.SameOpening n) (r : Rule)
    {f g : String → Lowering β} (hfg : ∀ name, StopAlike (f name) (g name)) :
    StopAlike (do read (m.ensure r); f (← read m.name))
      (do read (n.ensure r); g (← read n.name)) := by
  rw [← h.ensure r, ← h.name]
  exact stopAlike_bind _ fun _ => stopAlike_bind _ hfg

theorem Node.CutAtName.stopAlike_scope {β : Type} (h : m.CutAtName n) (r : Rule)
    (f g : String → Lowering β) :
    StopAlike (do read (m.ensure r); f (← read m.name))
      (do read (n.ensure r); g (← read n.name)) := by
  rw [← h.ensure r]
  exact stopAlike_bind _ fun _ => h.stopAlike.read.bind _ _

theorem DeclarativeItem.Cut.stopAlike {i j : DeclarativeItem} (h : Cut ctx i j) :
    StopAlike (i.lower ctx : Lowering (List (Declaration String))) (j.lower ctx) := by
  induction h with
  | item h => exact stopAlike_of_not_succeeds h
  | name hrole h =>
    rcases hrole with rfl | rfl | rfl
    · rw [lower, lower, Package.ofNode, Package.ofNode]
      exact (h.stopAlike_scope _ _ _).bind _ _
    · rw [lower, lower]
      exact (h.stopAlike_scope _ _ _).bind _ _
    · rw [lower, lower]
      exact (h.stopAlike.bind _ _).read.bind _ _
  | typeName h =>
    rw [lower, lower]
    exact (h.stopAlike.bind _ _).read.bind _ _
  | identifier hrole h =>
    rcases hrole with rfl | rfl | rfl
    all_goals
      rw [lower, lower]
      exact (h.stopAlike.bind _ _).read.bind _ _
  | subprogram hm hn hspec hspec' h =>
    rw [lower, lower]
    exact (Subprogram.stopAlike_ofNode hm hn hspec hspec' h).read.bind _ _
  | generics hfull opening hm hn h =>
    rw [lower, lower]
    refine StopAlike.bind (opening.stopAlike _ fun name => ?_) _ _
    simp only [hfull, Bool.false_eq_true, if_false]
    exact (h.stopAlike_ofChild hm hn).read.bind _ _
  | ports hfull opening hgenerics hm hn h =>
    rw [lower, lower]
    refine StopAlike.bind (opening.stopAlike _ fun name => ?_) _ _
    simp only [hfull, Bool.false_eq_true, if_false, InterfaceList.ofChild, hgenerics]
    refine stopAlike_bind _ fun generics => StopAlike.bind ?_ _ _
    exact (h.stopAlike_ofChild hm hn).read
  | package hfull opening hheader before hm hn _ ih =>
    rw [lower, lower, Package.ofNode, Package.ofNode]
    refine StopAlike.bind (opening.stopAlike _ fun name => ?_) _ _
    simp only [hfull, Bool.false_eq_true, if_false, Node.skipHeader, hheader]
    refine stopAlike_bind _ fun _ => StopAlike.bind ?_ _ _
    rw [Package.declarationsOf_eq_mapM, Package.declarationsOf_eq_mapM, hm, hn]
    exact (StopAlike.mapM (f := fun c => (classify c).lower ctx) ih _ _ _).map _

theorem DeclarativeItem.Cut.stopAlike_package (h : Cut ctx ⟨.package, m⟩ ⟨.package, n⟩) :
    StopAlike (Package.ofNode ctx m : Lowering (Package String)) (Package.ofNode ctx n) := by
  have hitem := h.stopAlike
  rw [lower, lower] at hitem
  exact stopAlike_of_bind_pure hitem

theorem DeclarativeItem.Cut.stopAlike_component (h : Cut ctx ⟨.component, m⟩ ⟨.component, n⟩) :
    StopAlike (Component.ofNode ctx m : Lowering (Component String)) (Component.ofNode ctx n) := by
  have hitem := h.stopAlike
  rw [lower, lower] at hitem
  exact stopAlike_of_bind_pure hitem

theorem Node.SameHead.stopAlike_ensure {r : Rule} (h : m.SameHead n) (hkind : m.kind ≠ .rule r) :
    StopAlike (read (m.ensure r) : Lowering Unit) (read (n.ensure r)) := by
  rw [← h.ensure r]
  refine (stopAlike_of_not_succeeds fun hsucceeds => ?_).read
  obtain ⟨u, hu⟩ := hsucceeds
  exact hkind (Node.result_ensure_eq_ok.mp hu)

/-- Trees that agree up to a defect stop there alike. -/
theorem Target.Cut.stopAlike {target : Target} (h : Cut ctx target m n) :
    StopAlike (target.lower ctx m : Lowering (Product String)) (target.lower ctx n) := by
  cases h with
  | kind head h =>
    cases target with
    | package =>
      rw [lower, lower, Package.ofNode, Package.ofNode]
      exact ((head.stopAlike_ensure h).bind _ _).map _
    | component => exact ((head.stopAlike_ensure h).bind _ _).map _
    | designFile => exact ((head.stopAlike_ensure h).bind _ _).map _
  | package h => exact h.stopAlike_package.map _
  | component h => exact h.stopAlike_component.map _
  | designFile head before hm hn hp hq h =>
    rename_i p q rest rest'
    have hpart : StopAlike (DesignFile.lowerPart ctx p : Lowering (List (Package String)))
        (DesignFile.lowerPart ctx q) := by
      rw [Likeness.lowerPart_of_unit hp.1, Likeness.lowerPart_of_unit hq.1, if_pos hp.2, if_pos hq.2]
      exact h.stopAlike_package.bind _ _
    refine StopAlike.map ?_ _
    rw [DesignFile.lower, DesignFile.lower, ← head.ensure .designFile, hm, hn]
    exact stopAlike_bind _ fun _ => (hpart.mapM before _ _).bind _ _

end Scopes

namespace Session

/-- Of two trees that agree up to a defect neither is handed out, and they leave the same session. -/
theorem step_eq_of_cut {s : Session} {target : Target} {ctx : Context} {m n : Node}
    (h : target.Cut ctx m n) :
    (∃ d, (s.step (.lower target ctx m)).1 = .error d) ∧
      s.step (.lower target ctx m) = s.step (.lower target ctx n) := by
  obtain ⟨⟨d, hd⟩, heq⟩ := h.stopAlike
  have hm : (s.step (.lower target ctx m)).1 = .error d := step_fails_iff.mpr hd
  have hn : (s.step (.lower target ctx n)).1 = .error d := step_fails_iff.mpr (heq ▸ hd)
  refine ⟨⟨d, hm⟩, Prod.ext (hm.trans hn.symm) ?_⟩
  rw [step_lower_eq_after, step_lower_eq_after, heq]

end Session

end VhdlLowering
