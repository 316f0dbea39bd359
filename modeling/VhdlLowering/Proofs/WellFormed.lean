import VhdlLowering.Proofs.Acceptance
import VhdlLowering.Proofs.StoredText

/-!
# Lowered trees are well formed

Whatever is handed out is well formed at every depth, and also well placed: names and fragments have
no white space at their ends, objects have the kind and the mode of the place where they are declared,
and every position is that of a node of the tree that was lowered.
-/

namespace VhdlLowering

namespace Text

/-- A text without white space at its ends. -/
structure IsTrimmed (s : String) : Prop where
  first : ∀ c ∈ s.toList.head?, isBlank c = false
  last : ∀ c ∈ s.toList.getLast?, isBlank c = false

theorem isTrimmed_iff {s : String} : IsTrimmed s ↔ trim s = s := by
  rw [← String.toList_inj, toList_trim, trimChars_eq_self_iff]
  exact ⟨fun h => ⟨h.first, h.last⟩, fun h => ⟨h.1, h.2⟩⟩

theorem isTrimmed_trim (s : String) : IsTrimmed (trim s) := by
  obtain ⟨rest, hrest⟩ := List.rdropWhile_prefix isBlank (s.toList.dropWhile isBlank)
  have htrim : (trim s).toList = (s.toList.dropWhile isBlank).rdropWhile isBlank := toList_trim s
  rw [← htrim] at hrest
  refine ⟨fun c hc => ?_, fun c hc => ?_⟩
  · -- What is kept begins where the cut on the left ended.
    have hhead : (s.toList.dropWhile isBlank).head? = some c := by
      rw [← hrest, List.head?_append, Option.mem_def.mp hc, Option.some_or]
    have hnot := List.head?_dropWhile_not isBlank s.toList
    rwa [hhead] at hnot
  · rw [htrim] at hc
    obtain ⟨hne, rfl⟩ := List.mem_getLast?_eq_getLast hc
    simpa using List.rdropWhile_last_not isBlank _ hne

end Text

namespace Node

mutual

theorem isNeat_of_mem_leafTexts : ∀ (n : Node) (t : String), t ∈ n.leafTexts → Text.IsNeat t
  | ⟨_, _, text, []⟩, t, h => by
    by_cases hblank : Text.trim text = ""
    · simp [leafTexts, hblank] at h
    · have ht : t = Text.trim text := by simpa [leafTexts, hblank] using h
      rw [ht]
      exact ⟨hblank, Text.isTrimmed_iff.mp (Text.isTrimmed_trim text)⟩
  | ⟨_, _, _, c :: cs⟩, t, h => isNeat_of_mem_leafTextsOf (c :: cs) t h

theorem isNeat_of_mem_leafTextsOf :
    ∀ (cs : List Node) (t : String), t ∈ leafTextsOf cs → Text.IsNeat t
  | c :: cs, t, h => by
    rcases List.mem_append.mp h with h | h
    · exact isNeat_of_mem_leafTexts c t h
    · exact isNeat_of_mem_leafTextsOf cs t h

end

/-- A stored text is cut, and a rebuilt one begins and ends with the text of a leaf. -/
theorem isTrimmed_sourceText (n : Node) : Text.IsTrimmed n.sourceText := by
  unfold sourceText
  split
  · exact Text.isTrimmed_trim n.text
  · by_cases hnil : n.leafTexts = []
    · rw [hnil]
      exact ⟨nofun, nofun⟩
    · have hneat := Text.isNeat_intercalate hnil (n.isNeat_of_mem_leafTexts)
      exact Text.isTrimmed_iff.mpr hneat.2

theorem isNeat_sourceText {n : Node} (h : n.sourceText ≠ "") : Text.IsNeat n.sourceText :=
  ⟨h, Text.isTrimmed_iff.mp n.isTrimmed_sourceText⟩

end Node

section WellFormed

variable (file : FileId) (root : Node)

/-- The position of a node of the tree, in the file of the tree. -/
structure FileSpan.IsOf (s : FileSpan) : Prop where
  file : s.file = file
  node : ∃ n : Node, n.Within root ∧ s.span = n.span

structure Expr.WellFormed (e : Expr) : Prop where
  text : Text.IsTrimmed e.text
  span : e.span.IsOf file root

/-- Declared objects have no mode, ports and parameters have one, and generics may have one. -/
def ObjectKind.Admits : ObjectKind → Option Direction → Prop
  | .constant, d | .signal, d | .variable, d => d = none
  | .port, d | .parameter, d => d ≠ none
  | .generic, _ => True

/-- An object in a place for objects of one kind. -/
structure Object.WellFormed (kind : ObjectKind) (o : Object String) : Prop where
  name : Text.IsNeat o.name
  direction : kind.Admits o.direction
  kind : o.kind = kind
  type : ∃ t, o.type = some t ∧ t.WellFormed file root
  value : ∀ v, o.value = some v → v.WellFormed file root
  span : o.span.IsOf file root

structure Subprogram.WellFormed (d : Subprogram String) : Prop where
  name : Text.IsNeat d.name
  params : ∀ o ∈ d.params, o.WellFormed file root .parameter
  function : d.kind = .function → ∃ t, d.returnType = some t ∧ t.WellFormed file root
  procedure : d.kind = .procedure → d.returnType = none
  span : d.span.IsOf file root

/-- The literals of an enumeration may be any texts. -/
structure TypeDecl.WellFormed (d : TypeDecl String) : Prop where
  name : Text.IsNeat d.name
  definition : ∀ e, d.definition = .verbatim e → e.WellFormed file root
  span : d.span.IsOf file root

structure SubtypeDecl.WellFormed (d : SubtypeDecl String) : Prop where
  name : Text.IsNeat d.name
  indication : d.indication.WellFormed file root
  span : d.span.IsOf file root

structure Component.WellFormed (c : Component String) : Prop where
  name : Text.IsNeat c.name
  generics : ∀ o ∈ c.generics, o.WellFormed file root .generic
  ports : ∀ o ∈ c.ports, o.WellFormed file root .port
  span : c.span.IsOf file root

mutual

inductive Declaration.WellFormed : Declaration String → Prop
  | subprogram {d : Subprogram String} (h : d.WellFormed file root) :
      Declaration.WellFormed (.subprogram d)
  | type {d : TypeDecl String} (h : d.WellFormed file root) : Declaration.WellFormed (.type d)
  | subtype {d : SubtypeDecl String} (h : d.WellFormed file root) :
      Declaration.WellFormed (.subtype d)
  | constant {o : Object String} (h : o.WellFormed file root .constant) :
      Declaration.WellFormed (.constant o)
  | signal {o : Object String} (h : o.WellFormed file root .signal) :
      Declaration.WellFormed (.signal o)
  | variable {o : Object String} (h : o.WellFormed file root .variable) :
      Declaration.WellFormed (.variable o)
  | package {p : Package String} (h : Package.WellFormed p) : Declaration.WellFormed (.package p)
  | component {c : Component String} (h : c.WellFormed file root) :
      Declaration.WellFormed (.component c)

/-- A package is a scope for declarations only, and so is every package inside. -/
inductive Package.WellFormed : Package String → Prop
  | intro {p : Package String} (hname : Text.IsNeat p.name) (honly : p.declarationsOnly = true)
      (hdeclarations : ∀ d ∈ p.declarations, Declaration.WellFormed d)
      (hspan : p.span.IsOf file root) : Package.WellFormed p

end

def Product.WellFormed (p : Product String) : Prop :=
  match p with
  | .package p => Package.WellFormed file root p
  | .component c => c.WellFormed file root
  | .packages ps => ∀ p ∈ ps, Package.WellFormed file root p

end WellFormed

namespace Traced

variable {τ α β γ : Type} {P : α → Prop} {Q : β → Prop}

/-- What `x` gives, if it gives anything, has the property. -/
structure Ensures (P : α → Prop) (x : Traced τ α) : Prop where
  holds : ∀ a, x.result = .ok a → P a

theorem ensures_pure {a : α} (h : P a) : Ensures P (pure a : Traced τ α) := by
  refine ⟨?_⟩
  rintro _ ⟨⟩
  exact h

theorem ensures_fail (d : Defect) : Ensures P (fail d : Traced τ α) := ⟨nofun⟩

theorem Ensures.bind {x : Traced τ α} {f : α → Traced τ β} (hx : Ensures P x)
    (hf : ∀ a, P a → Ensures Q (f a)) : Ensures Q (x >>= f) := by
  refine ⟨fun b hb => ?_⟩
  obtain ⟨a, ha, hb⟩ := result_bind_eq_ok.mp hb
  exact (hf a (hx.holds a ha)).holds b hb

theorem Ensures.map {x : Traced τ α} {f : α → β} (hx : Ensures P x) (hf : ∀ a, P a → Q (f a)) :
    Ensures Q (f <$> x) := by
  rw [map_eq_pure_bind]
  exact hx.bind fun a ha => ensures_pure (hf a ha)

theorem ensures_mapM {f : γ → Traced τ α} {cs : List γ} (h : ∀ c ∈ cs, Ensures P (f c)) :
    Ensures (fun as => ∀ a ∈ as, P a) (cs.mapM f) := by
  induction cs with
  | nil => exact ensures_pure nofun
  | cons c cs ih =>
    obtain ⟨hc, hcs⟩ := List.forall_mem_cons.mp h
    rw [List.mapM_cons]
    refine hc.bind fun a ha => (ih hcs).bind fun as has => ensures_pure ?_
    exact List.forall_mem_cons.mpr ⟨ha, has⟩

theorem ensures_read {x : Naming α} (h : Ensures P x) : Ensures P (read x : Lowering α) := ⟨h.holds⟩

/-- Nothing is asked of what is thrown away. -/
theorem ensures_any (x : Traced τ α) : Ensures (fun _ => True) x := ⟨fun _ _ => trivial⟩

end Traced

open Traced

variable {file : FileId} {root n : Node}

namespace Node

theorem isOf_fileSpan (hn : n.Within root) : (n.fileSpan file).IsOf file root :=
  ⟨rfl, n, hn, rfl⟩

theorem wellFormed_fragment (hn : n.Within root) : (n.fragment file).WellFormed file root := by
  refine ⟨?_, rfl, n, hn, rfl⟩
  dsimp only [fragment]
  exact n.isTrimmed_sourceText

/-- The value of an object, if it has one. -/
theorem wellFormed_of_map_fragment {k : Kind} (hn : n.Within root) (v : Expr)
    (h : (n.child? k).map (fragment file) = some v) : v.WellFormed file root := by
  obtain ⟨c, hc, rfl⟩ := Option.map_eq_some_iff.mp h
  exact wellFormed_fragment ((within_of_child? hc).trans hn)

theorem ensures_required (hn : n.Within root) (r : Rule) :
    Ensures (fun c => c.Within root) (n.required r : Naming Node) := by
  refine ⟨fun c h => ?_⟩
  exact (within_of_child? (result_required_eq_ok.mp h)).trans hn

theorem ensures_nameBy (n ident : Node) :
    Ensures Text.IsNeat (n.nameBy ident : Naming String) := by
  refine ⟨fun s h => ?_⟩
  obtain ⟨hne, rfl⟩ := result_nameBy_eq_ok.mp h
  exact isNeat_sourceText hne

theorem ensures_name (n : Node) : Ensures Text.IsNeat (n.name : Naming String) := by
  apply (ensures_any _).bind
  intro ident _
  exact n.ensures_nameBy ident

theorem ensures_names (n : Node) :
    Ensures (fun names => ∀ s ∈ names, Text.IsNeat s) (n.names : Naming (List String)) := by
  apply (ensures_mapM fun ident _ => n.ensures_nameBy ident).bind
  intro names hnames
  split
  · exact ensures_fail _
  · exact ensures_pure hnames

end Node

/-- Objects that share all but their names. -/
theorem Object.wellFormed_forNames {kind : ObjectKind} {direction : Option Direction} {type : Expr}
    {value : Option Expr} {span : FileSpan} {names : List String}
    (hnames : ∀ s ∈ names, Text.IsNeat s) (hdirection : kind.Admits direction)
    (htype : type.WellFormed file root) (hvalue : ∀ v, value = some v → v.WellFormed file root)
    (hspan : span.IsOf file root) :
    ∀ o ∈ forNames kind direction type value span names, o.WellFormed file root kind := by
  intro o ho
  obtain ⟨name, hname, rfl⟩ := List.mem_map.mp ho
  exact ⟨hnames name hname, hdirection, rfl, ⟨type, rfl, htype⟩, hvalue, hspan⟩

theorem Object.ensures_ofNode {kind : ObjectKind} (hn : n.Within root) (hkind : kind.Admits none) :
    Ensures (fun os => ∀ o ∈ os, o.WellFormed file root kind)
      (Object.ofNode file kind n : Naming (List (Object String))) := by
  apply n.ensures_names.bind
  intro names hnames
  apply (Node.ensures_required hn .subtypeIndication).bind
  intro type htype
  exact ensures_pure (wellFormed_forNames hnames hkind (Node.wellFormed_fragment htype)
    (Node.wellFormed_of_map_fragment hn) (Node.isOf_fileSpan hn))

/-- Kinds of objects that interface clauses declare. -/
def ObjectKind.isInterface : ObjectKind → Bool
  | .generic | .port | .parameter => true
  | .constant | .signal | .variable => false

theorem Node.ensures_direction {kind : ObjectKind} (hkind : kind.isInterface = true) :
    Ensures kind.Admits (n.direction kind : Naming (Option Direction)) := by
  have hsome (d : Direction) : kind.Admits (some d) := by
    cases kind <;> simp_all [ObjectKind.isInterface, ObjectKind.Admits]
  unfold direction
  split
  · split
    · exact ensures_pure (hsome _)
    · exact ensures_fail _
  · cases kind with
    | port | parameter => exact ensures_pure (hsome .input)
    | generic => exact ensures_pure trivial
    | constant | signal | «variable» => cases hkind

theorem Node.ensures_interfaceObjects {kind : ObjectKind} (hn : n.Within root)
    (hkind : kind.isInterface = true) :
    Ensures (fun os => ∀ o ∈ os, o.WellFormed file root kind)
      (n.interfaceObjects file kind : Naming (List (Object String))) := by
  apply n.ensures_names.bind
  intro names hnames
  apply (n.ensures_direction hkind).bind
  intro direction hdirection
  apply (ensures_required hn .subtypeIndication).bind
  intro type htype
  exact ensures_pure (Object.wellFormed_forNames hnames hdirection (wellFormed_fragment htype)
    (wellFormed_of_map_fragment hn) (isOf_fileSpan hn))

namespace InterfaceList

theorem ensures_ofNode {kind : ObjectKind} (hn : n.Within root)
    (hkind : kind.isInterface = true) :
    Ensures (fun l => ∀ o ∈ l.objects, o.WellFormed file root kind)
      (ofNode file kind n : Naming (InterfaceList String)) := by
  have hitem : ∀ item ∈ n.interfaceItems, Ensures (fun os => ∀ o ∈ os, o.WellFormed file root kind)
      (itemObjects file kind item : Naming (List (Object String))) := by
    intro item h
    cases item with
    | object c =>
      have hc : c.Within n := (Node.mem_interfaceItems_iff.mp h).within
      exact Node.ensures_interfaceObjects (hc.trans hn) hkind
    | other c => exact ensures_pure (List.forall_mem_nil _)
  apply (ensures_mapM hitem).bind
  intro objects hobjects
  refine ensures_pure fun o ho => ?_
  obtain ⟨os, hos, ho⟩ := List.mem_flatten.mp ho
  exact hobjects os hos o ho

theorem ensures_ofChild {kind : ObjectKind} (hn : n.Within root)
    (hkind : kind.isInterface = true) (clause : Rule) :
    Ensures (fun l => ∀ o ∈ l.objects, o.WellFormed file root kind)
      (ofChild file kind clause n : Naming (InterfaceList String)) := by
  unfold ofChild
  split
  · rename_i c hc
    exact ensures_ofNode ((Node.within_of_child? hc).trans hn) hkind
  · exact ensures_pure (List.forall_mem_nil _)

end InterfaceList

namespace Node

theorem ensures_designator (n : Node) : Ensures Text.IsNeat (n.designator : Naming String) := by
  unfold designator
  split
  · exact n.ensures_nameBy _
  · exact n.ensures_name

theorem ensures_parameters (hn : n.Within root) :
    Ensures (fun os => ∀ o ∈ os, o.WellFormed file root .parameter)
      (n.parameters file : Naming (List (Object String))) := by
  unfold parameters
  split
  · exact ensures_pure (List.forall_mem_nil _)
  · rename_i list hlist
    apply (InterfaceList.ensures_ofNode ((within_of_child? hlist).trans hn) rfl).bind
    intro params hparams
    split
    · exact ensures_pure hparams
    · exact ensures_fail _

/-- A function has a type to return, and a procedure has none. -/
theorem ensures_returnType (hn : n.Within root) (kind : SubprogramKind) :
    Ensures (fun t => (kind = .function → ∃ e, t = some e ∧ e.WellFormed file root) ∧
      (kind = .procedure → t = none)) (n.returnType file kind : Naming (Option Expr)) := by
  cases kind with
  | procedure => exact ensures_pure ⟨nofun, fun _ => rfl⟩
  | function =>
    have hmark : Ensures (fun mark => mark.Within root)
        (require ((n.child? (.rule .typeMark)).or (n.child? (.rule .subtypeIndication)))
          (.missingIn n .typeMark) : Naming Node) := by
      refine ⟨fun mark h => ?_⟩
      rcases Option.or_eq_some_iff.mp (result_require_eq_ok.mp h) with h | ⟨-, h⟩
      · exact (within_of_child? h).trans hn
      · exact (within_of_child? h).trans hn
    apply hmark.bind
    intro mark hmark
    exact ensures_pure ⟨fun _ => ⟨_, rfl, wellFormed_fragment hmark⟩, nofun⟩

theorem ensures_typeDefinition (hn : n.Within root) :
    Ensures (fun t => ∀ e, t = .verbatim e → e.WellFormed file root)
      (n.typeDefinition file : Naming (TypeDefinition String)) := by
  unfold typeDefinition
  split
  · exact ensures_pure nofun
  · split
    · exact (ensures_any _).map fun _ _ => nofun
    · rename_i definition _ hdefinition
      refine ensures_pure fun e he => ?_
      obtain rfl := TypeDefinition.verbatim.inj he
      exact wellFormed_fragment ((within_of_child? hdefinition).trans hn)
    · exact ensures_pure nofun

end Node

theorem Subprogram.ensures_ofNode (hn : n.Within root) :
    Ensures (Subprogram.WellFormed file root)
      (Subprogram.ofNode file n : Naming (Subprogram String)) := by
  apply (Node.ensures_required hn .subprogramSpecification).bind
  intro outer houter
  have hparts : Ensures (fun parts => parts.2.Within root)
      (outer.subprogramParts : Naming (SubprogramKind × Node)) := by
    refine ⟨fun parts h => ?_⟩
    exact (Node.result_subprogramParts_eq_ok.mp h).within.trans houter
  apply hparts.bind
  intro parts hspec
  obtain ⟨kind, spec⟩ := parts
  apply spec.ensures_designator.bind
  intro name hname
  apply (Node.ensures_parameters hspec).bind
  intro params hparams
  apply (Node.ensures_returnType hspec kind).bind
  intro type htype
  exact ensures_pure ⟨hname, hparams, htype.1, htype.2, Node.isOf_fileSpan hn⟩

theorem TypeDecl.ensures_ofNode (hn : n.Within root) :
    Ensures (TypeDecl.WellFormed file root) (TypeDecl.ofNode file n : Naming (TypeDecl String)) := by
  apply n.typeParts.ensures_name.bind
  intro name hname
  apply (Node.ensures_typeDefinition (n.within_typeParts.trans hn)).bind
  intro definition hdefinition
  exact ensures_pure ⟨hname, hdefinition, Node.isOf_fileSpan hn⟩

theorem SubtypeDecl.ensures_ofNode (hn : n.Within root) :
    Ensures (SubtypeDecl.WellFormed file root)
      (SubtypeDecl.ofNode file n : Naming (SubtypeDecl String)) := by
  apply n.ensures_name.bind
  intro name hname
  apply (Node.ensures_required hn .subtypeIndication).bind
  intro indication hindication
  exact ensures_pure ⟨hname, Node.wellFormed_fragment hindication, Node.isOf_fileSpan hn⟩

variable {ctx : Context}

theorem Component.ensures_ofNode (hn : n.Within root) :
    Ensures (Component.WellFormed ctx.file root)
      (Component.ofNode ctx n : Lowering (Component String)) := by
  apply (ensures_any _).bind
  intro _ _
  apply (ensures_read n.ensures_name).bind
  intro name hname
  split
  · exact ensures_pure ⟨hname, List.forall_mem_nil _, List.forall_mem_nil _, Node.isOf_fileSpan hn⟩
  · apply (ensures_read (InterfaceList.ensures_ofChild hn rfl .genericClause)).bind
    intro generics hgenerics
    apply (ensures_read (InterfaceList.ensures_ofChild hn rfl .portClause)).bind
    intro ports hports
    apply (ensures_any _).bind
    intro _ _
    exact ensures_pure ⟨hname, hgenerics, hports, Node.isOf_fileSpan hn⟩

/-- What an item declares is well formed, if that is so for the packages in it. -/
theorem DeclarativeItem.ensures_lower {item : DeclarativeItem} (hitem : item.node.Within root)
    (hpackage : Ensures (Package.WellFormed ctx.file root)
      (Package.ofNode ctx item.node : Lowering (Package String))) :
    Ensures (fun ds => ∀ d ∈ ds, Declaration.WellFormed ctx.file root d)
      (item.lower ctx : Lowering (List (Declaration String))) := by
  have hobjects (kind : ObjectKind) (hkind : kind.Admits none)
      (declare : Object String → Declaration String)
      (hdeclare : ∀ o, o.WellFormed ctx.file root kind →
        Declaration.WellFormed ctx.file root (declare o)) :
      Ensures (fun ds => ∀ d ∈ ds, Declaration.WellFormed ctx.file root d)
        (do return (← read (Object.ofNode ctx.file kind item.node)).map declare :
          Lowering (List (Declaration String))) := by
    apply (ensures_read (Object.ensures_ofNode hitem hkind)).bind
    intro os hos
    refine ensures_pure fun d hd => ?_
    obtain ⟨o, ho, rfl⟩ := List.mem_map.mp hd
    exact hdeclare o (hos o ho)
  rw [lower]
  cases item.role with
  | subprogram =>
    apply (ensures_read (Subprogram.ensures_ofNode hitem)).bind
    intro d hd
    exact ensures_pure (List.forall_mem_singleton.mpr (.subprogram hd))
  | package =>
    apply hpackage.bind
    intro p hp
    exact ensures_pure (List.forall_mem_singleton.mpr (.package hp))
  | type =>
    apply (ensures_read (TypeDecl.ensures_ofNode hitem)).bind
    intro d hd
    exact ensures_pure (List.forall_mem_singleton.mpr (.type hd))
  | subtype =>
    apply (ensures_read (SubtypeDecl.ensures_ofNode hitem)).bind
    intro d hd
    exact ensures_pure (List.forall_mem_singleton.mpr (.subtype hd))
  | constant => exact hobjects .constant rfl .constant fun _ => .constant
  | signal => exact hobjects .signal rfl .signal fun _ => .signal
  | «variable» => exact hobjects .variable rfl .variable fun _ => .variable
  | component =>
    apply (Component.ensures_ofNode hitem).bind
    intro c hc
    exact ensures_pure (List.forall_mem_singleton.mpr (.component hc))
  | unsupported u =>
    apply (ensures_any _).bind
    intro _ _
    exact ensures_pure (List.forall_mem_nil _)

theorem Package.ensures_ofNode (hn : n.Within root) :
    Ensures (Package.WellFormed ctx.file root)
      (Package.ofNode ctx n : Lowering (Package String)) := by
  induction n using Node.packageInduction with
  | h n ih =>
    rw [ofNode]
    apply (ensures_any _).bind
    intro _ _
    apply (ensures_read n.ensures_name).bind
    intro name hname
    split
    · exact ensures_pure (.intro hname rfl (List.forall_mem_nil _) (Node.isOf_fileSpan hn))
    · apply (ensures_any _).bind
      intro _ _
      have hitem : ∀ c ∈ n.packageItems,
          Ensures (fun ds => ∀ d ∈ ds, Declaration.WellFormed ctx.file root d)
            ((DeclarativeItem.classify c).lower ctx : Lowering (List (Declaration String))) := by
        intro c hc
        have hwithin := c.within_classify.trans ((Node.within_of_packageItem hc).trans hn)
        exact DeclarativeItem.ensures_lower hwithin (ih c hc hwithin)
      rw [declarationsOf_eq_mapM, bind_map_left]
      apply (ensures_mapM hitem).bind
      intro blocks hblocks
      refine ensures_pure (.intro hname rfl (fun d hd => ?_) (Node.isOf_fileSpan hn))
      obtain ⟨ds, hds, hd⟩ := List.mem_flatten.mp hd
      exact hblocks ds hds d hd

theorem DesignFile.ensures_lowerPart (hn : n.Within root) :
    Ensures (fun ps => ∀ p ∈ ps, Package.WellFormed ctx.file root p)
      (lowerPart ctx n : Lowering (List (Package String))) := by
  have hskip (x : Lowering Unit) : Ensures (fun ps => ∀ p ∈ ps, Package.WellFormed ctx.file root p)
      (do x; return [] : Lowering (List (Package String))) :=
    (ensures_any x).bind fun _ _ => ensures_pure (List.forall_mem_nil _)
  unfold lowerPart
  split
  · exact hskip _
  · exact hskip _
  · exact hskip _
  · exact hskip _
  · split
    · apply (Package.ensures_ofNode (n.unwraps_libraryUnit.within.trans hn)).bind
      intro p hp
      exact ensures_pure (List.forall_mem_singleton.mpr hp)
    · exact hskip _

theorem DesignFile.ensures_lower :
    Ensures (fun ps => ∀ p ∈ ps, Package.WellFormed ctx.file root p)
      (lower ctx root : Lowering (List (Package String))) := by
  apply (ensures_any _).bind
  intro _ _
  apply (ensures_mapM fun c hc => ensures_lowerPart (Node.within_of_unitPart hc)).bind
  intro parts hparts
  refine ensures_pure fun p hp => ?_
  obtain ⟨ps, hps, hp⟩ := List.mem_flatten.mp hp
  exact hparts ps hps p hp

theorem Target.ensures_lower (target : Target) :
    Ensures (Product.WellFormed ctx.file root)
      (target.lower ctx root : Lowering (Product String)) := by
  cases target with
  | package => exact (Package.ensures_ofNode (.root root)).map fun _ h => h
  | component => exact (Component.ensures_ofNode (.root root)).map fun _ h => h
  | designFile => exact DesignFile.ensures_lower.map fun _ h => h

namespace Session

/-- Every tree that is handed out is well formed once its names are looked up. -/
theorem product_wellFormed {s : Session} {target : Target} {ctx : Context} {n : Node}
    {p : Product Symbol} (h : (s.step (.lower target ctx n)).1 = .ok (some p)) :
    ∃ q : Product String,
      p.map (s.step (.lower target ctx n)).2.names.resolve? = q.map some ∧
        q.WellFormed ctx.file n := by
  obtain ⟨q, hq, hnames⟩ := result_of_step h
  exact ⟨q, hnames, target.ensures_lower.holds q hq⟩

/-- A package with a function and a component, in wrappers. Its name is stored with white space around
it, the type of the port is not stored at all. -/
def signatures : Node :=
  let ident (s : String) : Node := .leaf (.rule .identifier) ⟨1, 2⟩ s
  let bit : Node := .leaf (.rule .subtypeIndication) ⟨3, 4⟩ "bit"
  let vector : Node := ⟨.rule .subtypeIndication, ⟨3, 5⟩, " ",
    [.leaf (.other "name") ⟨3, 4⟩ "bits ", .leaf (.other "range") ⟨4, 5⟩ "(1 to 2)"]⟩
  let parameter : Node := .branch (.rule .interfaceElement) ⟨5, 7⟩
    [.branch (.rule .interfaceConstantDeclaration) ⟨5, 6⟩ [ident "x", bit]]
  let function : Node := .branch (.rule .functionSpecification) ⟨4, 9⟩
    [.leaf (.rule .designator) ⟨4, 5⟩ "f",
      .branch (.rule .formalParameterList) ⟨5, 8⟩ [parameter], .leaf (.rule .typeMark) ⟨8, 9⟩ "bit"]
  let subprogram : Node := .branch (.rule .packageDeclarativeItem) ⟨3, 9⟩
    [.branch (.rule .subprogramDeclaration) ⟨4, 9⟩
      [.branch (.rule .subprogramSpecification) ⟨4, 9⟩ [function]]]
  let port : Node := .branch (.rule .interfaceDeclaration) ⟨12, 15⟩
    [ident "y", .leaf (.rule .mode) ⟨13, 14⟩ " OUT", vector]
  let component : Node := .branch (.rule .componentDeclaration) ⟨10, 16⟩
    [ident "c", .branch (.rule .portClause) ⟨11, 16⟩ [.branch (.rule .interfaceList) ⟨12, 15⟩ [port]]]
  .branch (.rule .designFile) ⟨0, 20⟩
    [.branch (.rule .libraryUnit) ⟨0, 19⟩ [.branch (.rule .packageDeclaration) ⟨0, 18⟩
      [ident " p\t", .branch (.rule .packageDeclarativePart) ⟨2, 17⟩ [subprogram, component]]]]

theorem signatures_wellFormed :
    ∃ p, (start.step (.lower .designFile ⟨⟨7⟩, false⟩ signatures)).1 = .ok (some p) ∧
      ∃ q : Product String,
        p.map (start.step (.lower .designFile ⟨⟨7⟩, false⟩ signatures)).2.names.resolve? =
          q.map some ∧
        q.WellFormed ⟨7⟩ signatures := by
  obtain ⟨p, hp⟩ : ∃ p, (start.step (.lower .designFile ⟨⟨7⟩, false⟩ signatures)).1 =
      .ok (some p) := step_succeeds_iff.mpr (by decide +kernel)
  exact ⟨p, hp, product_wellFormed hp⟩

end Session

end VhdlLowering
