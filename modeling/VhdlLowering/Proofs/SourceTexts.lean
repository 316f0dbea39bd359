import VhdlLowering.Proofs.Outlines
import VhdlLowering.Proofs.Steps
import VhdlLowering.Proofs.WellFormed

/-!
# Where the texts of a package come from

Each text of a lowered package, a name or a fragment, is the source text of a node of the tree. A
source text is cut at its ends only. A line feed inside it stays and gives the outline a line that
is for no declaration.
-/

namespace VhdlLowering

open Text Traced

namespace Node

/-- The texts are source texts of nodes of the tree. -/
def Writes (root : Node) (ss : List String) : Prop :=
  ∀ s ∈ ss, ∃ c : Node, c.Within root ∧ c.sourceText = s

section Writes

variable {root : Node} {s : String} {ss ts : List String}

theorem writes_nil : root.Writes [] := nofun

theorem writes_cons :
    root.Writes (s :: ss) ↔ (∃ c : Node, c.Within root ∧ c.sourceText = s) ∧ root.Writes ss :=
  List.forall_mem_cons

theorem writes_append : root.Writes (ss ++ ts) ↔ root.Writes ss ∧ root.Writes ts :=
  List.forall_mem_append

theorem writes_flatMap {α : Type} {as : List α} {f : α → List String} :
    root.Writes (as.flatMap f) ↔ ∀ a ∈ as, root.Writes (f a) := by
  simp only [Writes, List.mem_flatMap, forall_exists_index, and_imp]
  exact ⟨fun h a ha s => h s a ha, fun h s a ha => h a ha s⟩

end Writes

theorem within_of_mem_childrenOf {n c : Node} {k : Kind} (h : c ∈ n.childrenOf k) : c.Within n :=
  within_of_child (List.mem_filter.mp h).1

theorem within_of_mem_identifiers {n c : Node} (h : c ∈ n.identifiers) : c.Within n := by
  unfold identifiers at h
  cases hlist : n.child? (.rule .identifierList) with
  | none =>
    rw [hlist] at h
    exact within_of_mem_childrenOf h
  | some list =>
    rw [hlist] at h
    exact (within_of_mem_childrenOf h).trans (within_of_child? hlist)

theorem within_of_mem_literals {n c : Node} (h : c ∈ n.literals) : c.Within n := by
  unfold literals at h
  split at h
  · exact within_of_mem_childrenOf h
  · exact within_of_mem_childrenOf h

/-- No text that a node of the tree stores has a line feed. -/
def IsSingleLined (root : Node) : Prop := ∀ c : Node, c.Within root → feeds c.text = 0

theorem IsSingleLined.of_within {n root : Node} (h : root.IsSingleLined) (hn : n.Within root) :
    n.IsSingleLined :=
  fun c hc => h c (hc.trans hn)

theorem isSingleLined_mk {kind : Kind} {span : Span} {text : String} {children : List Node} :
    (Node.mk kind span text children).IsSingleLined ↔
      feeds text = 0 ∧ ∀ c ∈ children, c.IsSingleLined := by
  refine ⟨fun h => ⟨h _ (.root _), fun c hc => h.of_within (within_of_child hc)⟩, fun h c hc => ?_⟩
  obtain ⟨htext, hchildren⟩ := h
  cases hc with
  | root => exact htext
  | inChild hd hc => exact hchildren _ hd c hc

end Node

theorem Text.feeds_trim {s : String} (h : feeds s = 0) : feeds (trim s) = 0 := by
  rw [feeds_eq_zero_iff] at *
  rw [toList_trim, trimChars, List.mem_reverse]
  intro hfeed
  have hleft := List.mem_reverse.mp ((List.dropWhile_sublist _).mem hfeed)
  exact h ((List.dropWhile_sublist _).mem hleft)

namespace Node

mutual

theorem IsSingleLined.feedsOf_leafTexts : ∀ n : Node, n.IsSingleLined → feedsOf n.leafTexts = 0
  | ⟨_, _, text, []⟩, h => by
    have htext : feeds (trim text) = 0 := feeds_trim (isSingleLined_mk.mp h).1
    by_cases hblank : trim text = ""
    · simp [leafTexts, hblank]
    · simp [leafTexts, hblank, htext]
  | ⟨_, _, _, c :: cs⟩, h =>
    IsSingleLined.feedsOf_leafTextsOf (c :: cs) (isSingleLined_mk.mp h).2

theorem IsSingleLined.feedsOf_leafTextsOf :
    ∀ cs : List Node, (∀ c ∈ cs, c.IsSingleLined) → feedsOf (leafTextsOf cs) = 0
  | [], _ => rfl
  | c :: cs, h => by
    obtain ⟨hc, hcs⟩ := List.forall_mem_cons.mp h
    rw [leafTextsOf, feedsOf_append, IsSingleLined.feedsOf_leafTexts c hc,
      IsSingleLined.feedsOf_leafTextsOf cs hcs]

end

theorem IsSingleLined.feeds_sourceText {n : Node} (h : n.IsSingleLined) :
    feeds n.sourceText = 0 := by
  unfold sourceText
  split
  · exact feeds_trim (h n (.root n))
  · rw [feeds_intercalate (by decide), IsSingleLined.feedsOf_leafTexts n h]

theorem IsSingleLined.feedsOf_eq_zero {root : Node} {ss : List String} (h : root.IsSingleLined)
    (hss : root.Writes ss) : feedsOf ss = 0 := by
  rw [feedsOf_eq_zero_iff]
  intro s hs
  obtain ⟨c, hc, rfl⟩ := hss s hs
  exact feeds_eq_zero_iff.mp (h.of_within hc).feeds_sourceText

end Node

variable {file : FileId} {root n : Node}

namespace Node

theorem writes_fragment (hn : n.Within root) : root.Writes [(n.fragment file).text] :=
  writes_cons.mpr ⟨⟨n, hn, rfl⟩, writes_nil⟩

theorem writes_map_fragment {k : Kind} (hn : n.Within root) :
    root.Writes (Expr.textOf? ((n.child? k).map (fragment file))) := by
  cases h : n.child? k with
  | none => exact writes_nil
  | some c => exact writes_fragment ((within_of_child? h).trans hn)

theorem ensures_writes_nameBy {ident : Node} (hident : ident.Within root) :
    Ensures (fun s => root.Writes [s]) (n.nameBy ident : Naming String) := by
  refine ⟨fun s h => ?_⟩
  obtain ⟨-, rfl⟩ := result_nameBy_eq_ok.mp h
  exact writes_cons.mpr ⟨⟨ident, hident, rfl⟩, writes_nil⟩

theorem ensures_writes_name (hn : n.Within root) :
    Ensures (fun s => root.Writes [s]) (n.name : Naming String) := by
  apply (ensures_required hn .identifier).bind
  intro ident hident
  exact ensures_writes_nameBy hident

theorem ensures_writes_names (hn : n.Within root) :
    Ensures root.Writes (n.names : Naming (List String)) := by
  refine ⟨fun ss h => ?_⟩
  obtain ⟨-, -, rfl⟩ := result_names_eq_ok.mp h
  intro s hs
  obtain ⟨ident, hident, rfl⟩ := List.mem_map.mp hs
  exact ⟨ident, (within_of_mem_identifiers hident).trans hn, rfl⟩

end Node

theorem Object.writes_forNames {kind : ObjectKind} {direction : Option Direction} {type : Expr}
    {value : Option Expr} {span : FileSpan} {names : List String} (hnames : root.Writes names)
    (htype : root.Writes [type.text]) (hvalue : root.Writes (Expr.textOf? value)) :
    root.Writes ((forNames kind direction type value span names).flatMap Object.texts) := by
  refine Node.writes_flatMap.mpr fun o ho => ?_
  obtain ⟨name, hname, rfl⟩ := List.mem_map.mp ho
  exact Node.writes_cons.mpr ⟨hnames name hname, Node.writes_append.mpr ⟨htype, hvalue⟩⟩

theorem Object.ensures_writes_ofNode {kind : ObjectKind} (hn : n.Within root) :
    Ensures (fun os => root.Writes (os.flatMap Object.texts))
      (Object.ofNode file kind n : Naming (List (Object String))) := by
  apply (Node.ensures_writes_names hn).bind
  intro names hnames
  apply (Node.ensures_required hn .subtypeIndication).bind
  intro type htype
  exact ensures_pure (writes_forNames hnames (Node.writes_fragment htype)
    (Node.writes_map_fragment hn))

theorem Node.ensures_writes_interfaceObjects {kind : ObjectKind} (hn : n.Within root) :
    Ensures (fun os => root.Writes (os.flatMap Object.texts))
      (n.interfaceObjects file kind : Naming (List (Object String))) := by
  apply (ensures_writes_names hn).bind
  intro names hnames
  apply (ensures_any _).bind
  intro direction _
  apply (ensures_required hn .subtypeIndication).bind
  intro type htype
  exact ensures_pure (Object.writes_forNames hnames (writes_fragment htype)
    (writes_map_fragment hn))

namespace InterfaceList

theorem ensures_writes_ofNode {kind : ObjectKind} (hn : n.Within root) :
    Ensures (fun l => root.Writes (l.objects.flatMap Object.texts))
      (ofNode file kind n : Naming (InterfaceList String)) := by
  have hitem : ∀ item ∈ n.interfaceItems,
      Ensures (fun os => root.Writes (os.flatMap Object.texts))
        (itemObjects file kind item : Naming (List (Object String))) := by
    intro item h
    cases item with
    | object c =>
      have hc : c.Within n := (Node.mem_interfaceItems_iff.mp h).within
      exact Node.ensures_writes_interfaceObjects (hc.trans hn)
    | other c => exact ensures_pure Node.writes_nil
  apply (ensures_mapM hitem).bind
  intro objects hobjects
  refine ensures_pure (Node.writes_flatMap.mpr fun o ho => ?_)
  obtain ⟨os, hos, ho⟩ := List.mem_flatten.mp ho
  exact Node.writes_flatMap.mp (hobjects os hos) o ho

theorem ensures_writes_ofChild {kind : ObjectKind} (hn : n.Within root) (clause : Rule) :
    Ensures (fun l => root.Writes (l.objects.flatMap Object.texts))
      (ofChild file kind clause n : Naming (InterfaceList String)) := by
  unfold ofChild
  split
  · rename_i c hc
    exact ensures_writes_ofNode ((Node.within_of_child? hc).trans hn)
  · exact ensures_pure Node.writes_nil

end InterfaceList

namespace Node

theorem ensures_writes_designator (hn : n.Within root) :
    Ensures (fun s => root.Writes [s]) (n.designator : Naming String) := by
  unfold designator
  split
  · rename_i d hd
    exact ensures_writes_nameBy ((within_of_child? hd).trans hn)
  · exact ensures_writes_name hn

theorem ensures_writes_parameters (hn : n.Within root) :
    Ensures (fun os => root.Writes (os.flatMap Object.texts))
      (n.parameters file : Naming (List (Object String))) := by
  unfold parameters
  split
  · exact ensures_pure writes_nil
  · rename_i list hlist
    apply (InterfaceList.ensures_writes_ofNode ((within_of_child? hlist).trans hn)).bind
    intro params hparams
    split
    · exact ensures_pure hparams
    · exact ensures_fail _

theorem ensures_writes_returnType (hn : n.Within root) (kind : SubprogramKind) :
    Ensures (fun t => root.Writes (Expr.textOf? t))
      (n.returnType file kind : Naming (Option Expr)) := by
  cases kind with
  | procedure => exact ensures_pure writes_nil
  | function =>
    refine ⟨fun t h => ?_⟩
    obtain ⟨mark, hmark, ht⟩ := result_bind_eq_ok.mp h
    cases ht
    rcases Option.or_eq_some_iff.mp (result_require_eq_ok.mp hmark) with h | ⟨-, h⟩
    · exact writes_fragment ((within_of_child? h).trans hn)
    · exact writes_fragment ((within_of_child? h).trans hn)

theorem ensures_writes_typeDefinition (hn : n.Within root) :
    Ensures (fun t => root.Writes t.texts)
      (n.typeDefinition file : Naming (TypeDefinition String)) := by
  unfold typeDefinition
  split
  · exact ensures_pure writes_nil
  · split
    · rename_i enumeration henumeration
      have hliteral : ∀ c ∈ enumeration.literals,
          Ensures (fun s => ∃ c : Node, c.Within root ∧ c.sourceText = s)
            (c.literalName : Naming String) := by
        intro c hc
        have hwithin : c.Within n :=
          (within_of_mem_literals hc).trans (below_of_findDescendant? henumeration).within
        refine ⟨fun s h => ?_⟩
        cases h
        exact ⟨c, hwithin.trans hn, rfl⟩
      exact (ensures_mapM hliteral).map fun _ h => h
    · rename_i definition _ hdefinition
      exact ensures_pure (writes_fragment ((within_of_child? hdefinition).trans hn))
    · exact ensures_pure writes_nil

end Node

theorem Subprogram.ensures_writes_ofNode (hn : n.Within root) :
    Ensures (fun d => root.Writes d.texts)
      (Subprogram.ofNode file n : Naming (Subprogram String)) := by
  apply (Node.ensures_required hn .subprogramSpecification).bind
  intro outer houter
  have hparts : Ensures (fun parts => parts.2.Within root)
      (outer.subprogramParts : Naming (SubprogramKind × Node)) := by
    refine ⟨fun parts h => ?_⟩
    exact (Node.result_subprogramParts_eq_ok.mp h).within.trans houter
  apply hparts.bind
  intro parts hspec
  obtain ⟨kind, spec⟩ := parts
  apply (Node.ensures_writes_designator hspec).bind
  intro name hname
  apply (Node.ensures_writes_parameters hspec).bind
  intro params hparams
  apply (Node.ensures_writes_returnType hspec kind).bind
  intro type htype
  have hrest := Node.writes_append.mpr ⟨hparams, htype⟩
  exact ensures_pure (Node.writes_append.mpr ⟨hname, hrest⟩)

theorem TypeDecl.ensures_writes_ofNode (hn : n.Within root) :
    Ensures (fun d => root.Writes d.texts) (TypeDecl.ofNode file n : Naming (TypeDecl String)) := by
  have hparts := n.within_typeParts.trans hn
  apply (Node.ensures_writes_name hparts).bind
  intro name hname
  apply (Node.ensures_writes_typeDefinition hparts).bind
  intro definition hdefinition
  exact ensures_pure (Node.writes_append.mpr ⟨hname, hdefinition⟩)

theorem SubtypeDecl.ensures_writes_ofNode (hn : n.Within root) :
    Ensures (fun d => root.Writes d.texts)
      (SubtypeDecl.ofNode file n : Naming (SubtypeDecl String)) := by
  apply (Node.ensures_writes_name hn).bind
  intro name hname
  apply (Node.ensures_required hn .subtypeIndication).bind
  intro indication hindication
  exact ensures_pure (Node.writes_append.mpr ⟨hname, Node.writes_fragment hindication⟩)

variable {ctx : Context}

theorem Component.ensures_writes_ofNode (hn : n.Within root) :
    Ensures (fun c => root.Writes c.texts)
      (Component.ofNode ctx n : Lowering (Component String)) := by
  apply (ensures_any _).bind
  intro _ _
  apply (ensures_read (Node.ensures_writes_name hn)).bind
  intro name hname
  split
  · exact ensures_pure hname
  · apply (ensures_read (InterfaceList.ensures_writes_ofChild hn .genericClause)).bind
    intro generics hgenerics
    apply (ensures_read (InterfaceList.ensures_writes_ofChild hn .portClause)).bind
    intro ports hports
    apply (ensures_any _).bind
    intro _ _
    have hobjects : root.Writes ((generics.objects ++ ports.objects).flatMap Object.texts) := by
      rw [List.flatMap_append]
      exact Node.writes_append.mpr ⟨hgenerics, hports⟩
    exact ensures_pure (Node.writes_append.mpr ⟨hname, hobjects⟩)

theorem DeclarativeItem.ensures_writes_lower {item : DeclarativeItem}
    (hitem : item.node.Within root)
    (hpackage : Ensures (fun p => root.Writes (Package.texts p))
      (Package.ofNode ctx item.node : Lowering (Package String))) :
    Ensures (fun ds => root.Writes (ds.flatMap Declaration.texts))
      (item.lower ctx : Lowering (List (Declaration String))) := by
  have hone {d : Declaration String} (hd : root.Writes d.texts) :
      root.Writes ([d].flatMap Declaration.texts) := by
    rwa [List.flatMap_singleton]
  have hobjects (kind : ObjectKind) (declare : Object String → Declaration String)
      (hdeclare : ∀ o, (declare o).texts = o.texts) :
      Ensures (fun ds => root.Writes (ds.flatMap Declaration.texts))
        (do return (← read (Object.ofNode ctx.file kind item.node)).map declare :
          Lowering (List (Declaration String))) := by
    apply (ensures_read (Object.ensures_writes_ofNode hitem)).bind
    intro os hos
    apply ensures_pure
    rwa [List.flatMap_map, funext hdeclare]
  rw [lower]
  cases item.role with
  | subprogram =>
    apply (ensures_read (Subprogram.ensures_writes_ofNode hitem)).bind
    intro d hd
    exact ensures_pure (hone hd)
  | package =>
    apply hpackage.bind
    intro p hp
    rw [← Declaration.texts_package] at hp
    exact ensures_pure (hone hp)
  | type =>
    apply (ensures_read (TypeDecl.ensures_writes_ofNode hitem)).bind
    intro d hd
    exact ensures_pure (hone hd)
  | subtype =>
    apply (ensures_read (SubtypeDecl.ensures_writes_ofNode hitem)).bind
    intro d hd
    exact ensures_pure (hone hd)
  | constant => exact hobjects .constant .constant fun _ => rfl
  | signal => exact hobjects .signal .signal fun _ => rfl
  | «variable» => exact hobjects .variable .variable fun _ => rfl
  | component =>
    apply (Component.ensures_writes_ofNode hitem).bind
    intro c hc
    exact ensures_pure (hone hc)
  | unsupported u =>
    apply (ensures_any _).bind
    intro _ _
    exact ensures_pure Node.writes_nil

/-- The texts of a package are source texts of nodes of its tree. -/
theorem Package.ensures_writes_ofNode (hn : n.Within root) :
    Ensures (fun p => root.Writes (texts p))
      (Package.ofNode ctx n : Lowering (Package String)) := by
  induction n using Node.packageInduction with
  | h n ih =>
    rw [ofNode]
    apply (ensures_any _).bind
    intro _ _
    apply (ensures_read (Node.ensures_writes_name hn)).bind
    intro name hname
    split
    · exact ensures_pure hname
    · apply (ensures_any _).bind
      intro _ _
      have hitem : ∀ c ∈ n.packageItems,
          Ensures (fun ds => root.Writes (ds.flatMap Declaration.texts))
            ((DeclarativeItem.classify c).lower ctx : Lowering (List (Declaration String))) := by
        intro c hc
        have hwithin := c.within_classify.trans ((Node.within_of_packageItem hc).trans hn)
        exact DeclarativeItem.ensures_writes_lower hwithin (ih c hc hwithin)
      rw [declarationsOf_eq_mapM, bind_map_left]
      apply (ensures_mapM hitem).bind
      intro blocks hblocks
      apply ensures_pure
      rw [texts, Declaration.textsOf_eq_flatMap]
      refine Node.writes_append.mpr ⟨hname, Node.writes_flatMap.mpr fun d hd => ?_⟩
      obtain ⟨ds, hds, hd⟩ := List.mem_flatten.mp hd
      exact Node.writes_flatMap.mp (hblocks ds hds) d hd

namespace Session

/-- The outline of a lowered package has a line for each heading and one more for each line feed in
the source texts of the nodes that it shows; so it has a line for each heading if no node of the
tree stores a line feed. -/
theorem length_lines_of_lowered {s : Session} {ctx : Context} {n : Node} {p : Package Symbol}
    (h : (s.step (.lower .package ctx n)).1 = .ok (some (.package p))) :
    let t := (s.step (.lower .package ctx n)).2.names
    let shown := Package.texts (Package.map t.nameOf p)
    n.Writes shown ∧
    (lines (p.outlineIn t)).length = Package.headingCount p + feedsOf shown ∧
    ((lines (p.outlineIn t)).length = Package.headingCount p ↔ ∀ x ∈ shown, '\n' ∉ x.toList) ∧
    (n.IsSingleLined → (lines (p.outlineIn t)).length = Package.headingCount p) := by
  intro t shown
  have hensures : Ensures (fun q => ∀ r, q = .package r → n.Writes (Package.texts r))
      (Target.lower ctx n .package : Lowering (Product String)) := by
    apply (Package.ensures_writes_ofNode (.root n)).map
    rintro r hr _ ⟨⟩
    exact hr
  have hwrites : n.Writes shown := by
    obtain ⟨q, hq, hnames⟩ := result_of_step h
    exact hensures.holds q hq _ (Product.map_nameOf hnames).symm
  have hlength : (lines (p.outlineIn t)).length = Package.headingCount p + feedsOf shown := by
    rw [Package.outlineIn, Package.length_lines_outline, Package.headingCount_map]
  refine ⟨hwrites, hlength, ?_, fun hn => ?_⟩
  · rw [hlength, ← feedsOf_eq_zero_iff]
    omega
  · rw [hlength, hn.feedsOf_eq_zero hwrites, Nat.add_zero]

/-- A package with one constant, whose value has the given text. -/
def constantPackage (value : String) : Node :=
  .branch (.rule .packageDeclaration) ⟨0, 9⟩
    [.leaf (.rule .identifier) ⟨0, 1⟩ "p", .branch (.rule .packageDeclarativePart) ⟨2, 8⟩
      [.branch (.rule .constantDeclaration) ⟨2, 8⟩
        [.leaf (.rule .identifier) ⟨2, 3⟩ "c", .leaf (.rule .subtypeIndication) ⟨3, 4⟩ "bit",
          .leaf (.rule .expression) ⟨5, 8⟩ value]]]

theorem constantPackage_lines :
    ∃ p, (start.step (.lower .package ⟨⟨0⟩, false⟩ (constantPackage "1 + 2"))).1 =
        .ok (some (.package p)) ∧
      (constantPackage "1 + 2").IsSingleLined ∧
      let t := (start.step (.lower .package ⟨⟨0⟩, false⟩ (constantPackage "1 + 2"))).2.names
      (constantPackage "1 + 2").Writes (Package.texts (Package.map t.nameOf p)) ∧
        (lines (p.outlineIn t)).length = Package.headingCount p := by
  have hlowered : (start.step (.lower .package ⟨⟨0⟩, false⟩ (constantPackage "1 + 2"))).1 =
      .ok (some (.package ⟨⟨0⟩, true, [.constant ⟨⟨1⟩, .constant, none,
        some ⟨"bit", ⟨⟨0⟩, ⟨3, 4⟩⟩⟩, some ⟨"1 + 2", ⟨⟨0⟩, ⟨5, 8⟩⟩⟩, ⟨⟨0⟩, ⟨2, 8⟩⟩⟩],
        ⟨⟨0⟩, ⟨0, 9⟩⟩⟩)) := by
    decide +kernel
  have hsingle : (constantPackage "1 + 2").IsSingleLined := by
    simp [constantPackage, Node.branch, Node.leaf, Node.isSingleLined_mk, feeds]
  obtain ⟨hwrites, -, -, hlines⟩ := length_lines_of_lowered hlowered
  exact ⟨_, hlowered, hsingle, hwrites, hlines hsingle⟩

/-- Two headings in three lines: the line feed in the value is copied. -/
theorem constantPackage_feed :
    ∃ p, (start.step (.lower .package ⟨⟨0⟩, false⟩ (constantPackage "1\n+ 2"))).1 =
        .ok (some (.package p)) ∧
      let t := (start.step (.lower .package ⟨⟨0⟩, false⟩ (constantPackage "1\n+ 2"))).2.names
      p.outlineIn t = "package p\n  constant c : bit := 1\n+ 2\n" ∧
        (lines (p.outlineIn t)).length = 3 ∧ Package.headingCount p = 2 := by
  refine ⟨⟨⟨0⟩, true, [.constant ⟨⟨1⟩, .constant, none, some ⟨"bit", ⟨⟨0⟩, ⟨3, 4⟩⟩⟩,
    some ⟨"1\n+ 2", ⟨⟨0⟩, ⟨5, 8⟩⟩⟩, ⟨⟨0⟩, ⟨2, 8⟩⟩⟩], ⟨⟨0⟩, ⟨0, 9⟩⟩⟩, ?_, ?_⟩
  · decide +kernel
  · decide +kernel

end Session

end VhdlLowering
