import VhdlLowering.Proofs.Halting

/-!
# Lowering part after part

A design file is lowered part by part and a package item by item, so a list of children may be cut in
two: the second half goes on where the first one ended, in the session that the first one left, and it
is not looked at if the first one stops.
-/

namespace VhdlLowering

namespace Node

/-- The node with other children. -/
def withChildren (n : Node) (cs : List Node) : Node := { n with children := cs }

theorem sameHead_withChildren (n : Node) (cs ds : List Node) :
    (n.withChildren cs).SameHead (n.withChildren ds) := ⟨rfl, rfl⟩

theorem unitParts_append (root : Node) (as bs : List Node) :
    (root.withChildren (as ++ bs)).unitParts =
      (root.withChildren as).unitParts ++ (root.withChildren bs).unitParts := by
  simp [unitParts, phrases, withChildren]

theorem not_isToken_of_rule {n : Node} {r : Rule} (h : n.kind = .rule r) : n.isToken = false := by
  simp [isToken, h]

/-- The parts of a unit may also stand in the file themselves. -/
theorem unitParts_designUnit {root unit : Node} {before after cs : List Node}
    (hunit : unit.kind = .rule .designUnit) (hcs : ∀ c ∈ cs, c.kind ≠ .rule .designUnit) :
    (root.withChildren (before ++ unit.withChildren cs :: after)).unitParts =
      (root.withChildren (before ++ cs ++ after)).unitParts := by
  have htoken : (unit.withChildren cs).isToken = false := not_isToken_of_rule hunit
  have hparts : (root.withChildren cs).unitParts = (unit.withChildren cs).phrases := by
    have hsingle : ∀ c ∈ (root.withChildren cs).phrases,
        (if c.kind = .rule .designUnit then c.phrases else [c]) = [c] := fun c hc =>
      if_neg (hcs c (List.mem_filter.mp hc).1)
    rw [unitParts, List.flatMap_congr hsingle, List.flatMap_singleton', phrases, phrases]
    rfl
  have hwrapped : (root.withChildren [unit.withChildren cs]).unitParts =
      (unit.withChildren cs).phrases := by
    have hphrases : (root.withChildren [unit.withChildren cs]).phrases = [unit.withChildren cs] := by
      simp [phrases, withChildren, ← htoken]
    rw [unitParts, hphrases, List.flatMap_singleton]
    exact if_pos hunit
  rw [List.append_cons, unitParts_append, unitParts_append, hwrapped, unitParts_append,
    unitParts_append, hparts]

/-- A package in which a declarative part stands between other children, and no other part stands in
front of it. -/
structure PackageFrame where
  node : Node
  before : List Node
  part : Node
  after : List Node
  part_kind : part.kind = .rule .packageDeclarativePart
  first : ∀ c ∈ before, c.kind ≠ .rule .packageDeclarativePart

namespace PackageFrame

variable (f : PackageFrame) (cs ds : List Node)

/-- The package with the given children of its part. -/
def fill : Node := f.node.withChildren (f.before ++ f.part.withChildren cs :: f.after)

theorem packageItems_fill : (f.fill cs).packageItems = cs := by
  have hpart : (f.fill cs).child? (.rule .packageDeclarativePart) =
      some (f.part.withChildren cs) := by
    have hbefore : f.before.find? (fun c => c.kind = .rule .packageDeclarativePart) = none := by
      simpa using f.first
    simp [child?, fill, withChildren, hbefore, f.part_kind]
  rw [packageItems, hpart]
  rfl

theorem child?_fill {r : Rule} (hr : r ≠ .packageDeclarativePart) :
    (f.fill cs).child? (.rule r) = (f.fill ds).child? (.rule r) := by
  have hpart : f.part.kind ≠ .rule r := fun h => hr (Kind.rule.inj (h.symm.trans f.part_kind))
  simp [child?, fill, withChildren, List.find?_append, hpart]

theorem sameOpening_fill : (f.fill cs).SameOpening (f.fill ds) :=
  ⟨sameHead_withChildren _ _ _, f.child?_fill cs ds (by decide)⟩

end PackageFrame
end Node

section Lowering

variable {ν : Type} {r m : Type → Type} [MonadNaming ν r] [MonadLowering r m]
variable {ctx : Context}

/-- Gives items to a package one after the other. -/
def Package.feed (ctx : Context) (p : Package ν) : List Node → m (Package ν)
  | [] => return p
  | c :: cs => do
    let (_, q) ← p.accept ctx (.classify c)
    Package.feed ctx q cs

/-- The packages of two design files. -/
def Product.append : Product ν → Product ν → Product ν
  | .packages ps, .packages qs => .packages (ps ++ qs)
  | p, _ => p

/-- Gives items to a product, which should be a package. -/
def Product.feed (ctx : Context) (cs : List Node) : Product ν → m (Product ν)
  | .package p => .package <$> Package.feed ctx p cs
  | p => return p

variable [LawfulLowering ν r m]

/-- A package that was fed has what the items declare at its end. -/
theorem Package.feed_eq (p : Package ν) (cs : List Node) :
    (p.feed ctx cs : m (Package ν)) =
      (fun ds => { p with declarations := p.declarations ++ ds }) <$>
        Package.declarationsOf ctx cs := by
  induction cs generalizing p with
  | nil => simp [feed, declarationsOf]
  | cons c cs ih =>
    rw [feed, accept, declarationsOf]
    simp [ih]

/-- Half of the parts after the other half. -/
theorem DesignFile.lower_append (root : Node) (as bs : List Node) :
    (lower ctx (root.withChildren (as ++ bs)) : m (List (Package ν))) = do
      let ps ← lower ctx (root.withChildren as)
      let qs ← lower ctx (root.withChildren bs)
      return ps ++ qs := by
  have hensure (cs : List Node) : ((root.withChildren cs).ensure .designFile : r Unit) =
      root.ensure .designFile := (root.sameHead_withChildren cs root.children).ensure _
  simp only [lower, hensure, Node.unitParts_append, List.mapM_append]
  by_cases hk : root.kind = .rule .designFile
  · have hroot : (root.ensure .designFile : r Unit) = pure () := if_pos hk
    simp [hroot, LawfulLowering.read_pure]
  · have hroot : (root.ensure .designFile : r Unit) =
        MonadNaming.fail (.unexpectedNode root .designFile) := if_neg hk
    simp only [hroot, bind_assoc, LawfulLowering.read_fail_bind]

/-- Half of the items after the other half. -/
theorem Package.ofNode_fill_append (hfull : ctx.hierarchyOnly = false) (f : Node.PackageFrame)
    (as bs : List Node) :
    (Package.ofNode ctx (f.fill (as ++ bs)) : m (Package ν)) =
      Package.ofNode ctx (f.fill as) >>= fun p => Package.feed ctx p bs := by
  have hopening := f.sameOpening_fill (as ++ bs) as
  have hheader : (f.fill (as ++ bs)).skipHeader = ((f.fill as).skipHeader : m Unit) := by
    rw [Node.skipHeader, Node.skipHeader, f.child?_fill _ as (by decide)]
  rw [ofNode, ofNode, hopening.ensure, hopening.name, hopening.fileSpan, hheader,
    f.packageItems_fill, f.packageItems_fill]
  simp [hfull, feed_eq, declarationsOf_eq_mapM, List.mapM_append]

omit [LawfulLowering ν r m] in
/-- Without its items a package is the same whatever they are. -/
theorem Package.ofNode_fill_of_hierarchyOnly (honly : ctx.hierarchyOnly = true)
    (f : Node.PackageFrame) (as bs : List Node) :
    (Package.ofNode ctx (f.fill as) : m (Package ν)) = Package.ofNode ctx (f.fill bs) := by
  have hopening := f.sameOpening_fill as bs
  rw [ofNode, ofNode, hopening.ensure, hopening.name, hopening.fileSpan]
  simp only [honly, if_true]

end Lowering

namespace Session

/-- What a run answers, and the session after it. -/
def outcome (x : SessionM (Product Symbol)) (s : Session) : Answer Symbol × Session :=
  match x.run s with
  | .ok p next => (.ok (some p), next)
  | .error d next => (.error d, next)

/-- Goes on with what was handed out, in the session it was handed out in. A defect ends it all. -/
def andThen (x : Answer Symbol × Session) (f : Product Symbol → Session → Answer Symbol × Session) :
    Answer Symbol × Session :=
  match x with
  | (.ok (some p), s) => f p s
  | (a, s) => (a, s)

/-- Gives items to a package that was handed out. -/
def feed (ctx : Context) (cs : List Node) (p : Product Symbol) (s : Session) :
    Answer Symbol × Session :=
  outcome (p.feed ctx cs) s

theorem outcome_bind (x : SessionM (Product Symbol)) (f : Product Symbol → SessionM (Product Symbol))
    (s : Session) : outcome (x >>= f) s = andThen (outcome x s) fun p => outcome (f p) := by
  rw [outcome, outcome, EStateM.run_bind]
  cases x.run s <;> rfl

theorem step_lower (s : Session) (target : Target) (ctx : Context) (n : Node) :
    s.step (.lower target ctx n) = outcome (target.lower ctx n) s := rfl

/-- How a session takes a tree one piece after the other. -/
structure Sequential (s : Session) (ctx : Context) : Prop where
  /-- A design file is lowered as one half of its children and then, unless that stops, as the other
  half, in the session that the first half left. -/
  designFile : ∀ (root : Node) (as bs : List Node),
    s.step (.lower .designFile ctx (root.withChildren (as ++ bs))) =
      andThen (s.step (.lower .designFile ctx (root.withChildren as))) fun p s' =>
        andThen (s'.step (.lower .designFile ctx (root.withChildren bs))) fun q s'' =>
          (.ok (some (p.append q)), s'')
  /-- If the first half stops, then all is as if there was nothing else. -/
  designFile_defect : ∀ (root : Node) (as bs : List Node) (d : Defect) (s' : Session),
    s.step (.lower .designFile ctx (root.withChildren as)) = (.error d, s') →
      s.step (.lower .designFile ctx (root.withChildren (as ++ bs))) = (.error d, s')
  /-- A package is lowered as one half of its items and then, unless that stops, it is given the
  other half item by item. -/
  package : ctx.hierarchyOnly = false → ∀ (f : Node.PackageFrame) (as bs : List Node),
    s.step (.lower .package ctx (f.fill (as ++ bs))) =
      andThen (s.step (.lower .package ctx (f.fill as))) (feed ctx bs)
  /-- If only the hierarchy is wanted the items are not looked at. -/
  hierarchy : ctx.hierarchyOnly = true → ∀ (f : Node.PackageFrame) (as bs : List Node),
    s.step (.lower .package ctx (f.fill as)) = s.step (.lower .package ctx (f.fill bs))
  /-- A unit may be replaced by its parts. -/
  designUnit : ∀ (root unit : Node) (before after cs : List Node),
    unit.kind = .rule .designUnit → (∀ c ∈ cs, c.kind ≠ .rule .designUnit) →
      s.step (.lower .designFile ctx
          (root.withChildren (before ++ unit.withChildren cs :: after))) =
        s.step (.lower .designFile ctx (root.withChildren (before ++ cs ++ after)))
  /-- Trees that agree up to a defect are refused for it alike, whatever comes after it. -/
  defect : ∀ (target : Target) (m n : Node), target.Cut ctx m n →
    (∃ d, (s.step (.lower target ctx m)).1 = .error d) ∧
      s.step (.lower target ctx m) = s.step (.lower target ctx n)

theorem step_designFile_append (s : Session) (ctx : Context) (root : Node) (as bs : List Node) :
    s.step (.lower .designFile ctx (root.withChildren (as ++ bs))) =
      andThen (s.step (.lower .designFile ctx (root.withChildren as))) fun p s' =>
        andThen (s'.step (.lower .designFile ctx (root.withChildren bs))) fun q s'' =>
          (.ok (some (p.append q)), s'') := by
  have hlower : (Target.designFile.lower ctx (root.withChildren (as ++ bs)) :
      SessionM (Product Symbol)) = do
        let p ← Target.designFile.lower ctx (root.withChildren as)
        let q ← Target.designFile.lower ctx (root.withChildren bs)
        return p.append q := by
    simp [Target.lower, DesignFile.lower_append, Product.append]
  rw [step_lower, hlower, outcome_bind]
  congr
  funext p s'
  rw [step_lower, outcome_bind]
  rfl

theorem step_package_append (s : Session) {ctx : Context} (hfull : ctx.hierarchyOnly = false)
    (f : Node.PackageFrame) (as bs : List Node) :
    s.step (.lower .package ctx (f.fill (as ++ bs))) =
      andThen (s.step (.lower .package ctx (f.fill as))) (feed ctx bs) := by
  have hpackage : (Package.ofNode ctx (f.fill (as ++ bs)) : SessionM (Package Symbol)) = _ :=
    Package.ofNode_fill_append hfull f as bs
  have hlower : (Target.package.lower ctx (f.fill (as ++ bs)) : SessionM (Product Symbol)) =
      Target.package.lower ctx (f.fill as) >>= Product.feed ctx bs := by
    simp [Target.lower, hpackage, Product.feed]
  rw [step_lower, hlower, outcome_bind]
  rfl

/-- A package without items. -/
def emptyPackage : Node.PackageFrame where
  node := .leaf (.rule .packageDeclaration) ⟨0, 9⟩ "p"
  before := [.leaf (.rule .identifier) ⟨0, 1⟩ "p"]
  part := .leaf (.rule .packageDeclarativePart) ⟨2, 8⟩ ""
  after := []
  part_kind := rfl
  first := by decide

def oneConstant : Node := .branch (.rule .constantDeclaration) ⟨2, 8⟩
  [.leaf (.rule .identifier) ⟨2, 3⟩ "c", .leaf (.rule .subtypeIndication) ⟨4, 7⟩ "bit"]

/-- If only the hierarchy is wanted, a package with an item is not the package without it that was
given the item. -/
theorem hierarchy_not_fed :
    start.step (.lower .package ⟨⟨0⟩, true⟩ (emptyPackage.fill ([] ++ [oneConstant]))) ≠
      andThen (start.step (.lower .package ⟨⟨0⟩, true⟩ (emptyPackage.fill [])))
        (feed ⟨⟨0⟩, true⟩ [oneConstant]) := by
  intro h
  have hnames := congrArg (fun x => x.2.names.names) h
  revert hnames
  decide +kernel

/-- Lowering goes on from piece to piece and stops at the first defect. -/
theorem lowering_sequential (s : Session) (ctx : Context) : s.Sequential ctx where
  designFile root as bs := s.step_designFile_append ctx root as bs
  designFile_defect root as bs d s' h := by
    rw [s.step_designFile_append ctx root as bs, h]
    rfl
  package hfull f as bs := s.step_package_append hfull f as bs
  hierarchy honly f as bs := by
    have hlower : (Package.ofNode ctx (f.fill as) : SessionM (Package Symbol)) =
        Package.ofNode ctx (f.fill bs) := Package.ofNode_fill_of_hierarchyOnly honly f as bs
    rw [step_lower, step_lower, Target.lower, Target.lower, hlower]
  designUnit root unit before after cs hunit hcs := by
    have hensure : ((root.withChildren (before ++ unit.withChildren cs :: after)).ensure .designFile :
        TableM Unit) = (root.withChildren (before ++ cs ++ after)).ensure .designFile :=
      (root.sameHead_withChildren _ _).ensure _
    rw [step_lower, step_lower, Target.lower, Target.lower, DesignFile.lower, DesignFile.lower,
      hensure, Node.unitParts_designUnit hunit hcs]
  defect _ _ _ h := step_eq_of_cut h

/-- Ports of which the first one has no type. -/
def untypedPorts (late : Node) : Node :=
  .branch (.rule .portClause) ⟨9, 11⟩
    [.branch (.rule .interfaceSignalDeclaration) ⟨9, 10⟩ [.leaf (.rule .identifier) ⟨9, 10⟩ "x"],
      late]

/-- A design file with a package in a package. The inner one declares a component with a port that has
no type. The given node comes after the defect at every level. -/
def untypedPort (late : Node) : Node :=
  let ident (s : String) : Node := .leaf (.rule .identifier) ⟨1, 2⟩ s
  let component : Node := .branch (.rule .componentDeclaration) ⟨8, 12⟩
    [ident "c", untypedPorts late]
  let inner : Node := .branch (.rule .packageDeclaration) ⟨4, 14⟩
    [ident "q", .branch (.rule .packageDeclarativePart) ⟨5, 13⟩ [oneConstant, component, late]]
  let outer : Node := .branch (.rule .packageDeclaration) ⟨0, 16⟩
    [ident "p", .branch (.rule .packageDeclarativePart) ⟨2, 15⟩
      [.branch (.rule .packageDeclarativeItem) ⟨4, 14⟩ [inner], late]]
  .branch (.rule .designFile) ⟨0, 20⟩ [.branch (.rule .libraryUnit) ⟨0, 16⟩ [outer], late]

theorem untypedPorts_cut (late late' : Node) :
    (untypedPorts late).CutClause (untypedPorts late') := by
  have hitems := Node.interfaceItems_eq
  refine .intro [] (hitems (untypedPorts late)) (hitems (untypedPorts late')) (.type fun h => ?_)
  obtain ⟨type, htype⟩ := h.type
  cases htype

theorem untypedPort_cut (late late' : Node) :
    Target.designFile.Cut ⟨⟨0⟩, false⟩ (untypedPort late) (untypedPort late') := by
  refine .designFile ⟨rfl, rfl⟩ [] rfl rfl ⟨rfl, rfl⟩ ⟨rfl, rfl⟩ ?_
  refine .package rfl ⟨⟨rfl, rfl⟩, rfl⟩ rfl [] rfl rfl ?_
  refine .package rfl ⟨⟨rfl, rfl⟩, rfl⟩ rfl [oneConstant] rfl rfl ?_
  exact .ports rfl ⟨⟨rfl, rfl⟩, rfl⟩ rfl rfl rfl (untypedPorts_cut late late')

theorem untypedPort_sequential :
    let semicolon : Node := .leaf (.other "SEMI") ⟨17, 18⟩ ";"
    let nameless : Node := .leaf (.rule .packageDeclaration) ⟨18, 19⟩ ""
    (∃ d, (start.step (.lower .designFile ⟨⟨0⟩, false⟩ (untypedPort semicolon))).1 = .error d) ∧
      start.step (.lower .designFile ⟨⟨0⟩, false⟩ (untypedPort semicolon)) =
        start.step (.lower .designFile ⟨⟨0⟩, false⟩ (untypedPort nameless)) := by
  intro semicolon nameless
  exact (lowering_sequential start ⟨⟨0⟩, false⟩).defect _ _ _ (untypedPort_cut semicolon nameless)

end Session

end VhdlLowering
