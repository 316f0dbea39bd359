import VhdlLowering.ClauseWalk
import VhdlLowering.Proofs.Acceptance

/-!
# What a walk through a clause does

The walk visits the phrases of a clause and goes on inside the wrappers that declare nothing
themselves. Every other node that it visits is an object declaration or is handed back, and nothing
is lost, doubled or moved. At a defect the list ends with the objects of the last declaration in
front of it.
-/

namespace VhdlLowering

open Follower

namespace Node

/-- Whether the walk goes on inside a node: a wrapper without the parts of an object. -/
def isPassage (n : Node) : Bool := n.kind.isInterfaceWrapper && !n.hasObjectParts

mutual

/-- The nodes that are visited below a node, in order. -/
def visits : Node → List Node
  | ⟨_, _, _, cs⟩ => visitsAmong cs

def visitsAmong : List Node → List Node
  | [] => []
  | c :: cs =>
    (if c.isToken then [] else if c.isPassage then c :: visits c else [c]) ++ visitsAmong cs

end

/-- The visited nodes inside which the walk does not go on. -/
def stops (n : Node) : List Node := n.visits.filter fun c => !c.isPassage

def stopsAmong (cs : List Node) : List Node := (visitsAmong cs).filter fun c => !c.isPassage

/-- The object declarations among them. -/
def objectStops (n : Node) : List Node := n.stops.filter declaresInterface

/-- All the others. -/
def otherStops (n : Node) : List Node := n.stops.filter fun c => !c.declaresInterface

theorem isPassage_eq (n : Node) :
    n.isPassage = (!n.declaresInterface && n.kind.isInterfaceWrapper) := by
  have hkind (k : Kind) (h : k.isInterfaceWrapper = true) : k.isInterfaceObject = false := by
    unfold Kind.isInterfaceWrapper at h
    split at h <;> trivial
  rw [isPassage, declaresInterface]
  cases hwrapper : n.kind.isInterfaceWrapper with
  | false => simp
  | true => simp [hkind n.kind hwrapper]

theorem stopsAmong_cons (c : Node) (cs : List Node) :
    stopsAmong (c :: cs) =
      (if c.isToken then []
        else if c.declaresInterface then [c]
        else if c.kind.isInterfaceWrapper then c.stops
        else [c]) ++ stopsAmong cs := by
  rw [stopsAmong, visitsAmong, List.filter_append, ← stopsAmong]
  congr 1
  cases c.isToken <;> cases hobject : c.declaresInterface <;>
    cases hwrapper : c.kind.isInterfaceWrapper <;>
    simp [isPassage_eq, stops, hobject, hwrapper]

end Node

/-- The mode of an object that is written without one. -/
def ObjectKind.defaultDirection : ObjectKind → Option Direction
  | .port | .parameter => some .input
  | .constant | .signal | .variable | .generic => none

namespace Node

variable (file : FileId) (kind : ObjectKind) (n : Node)

def mode? : Option Direction :=
  match n.child? (.rule .mode) with
  | some mode => Direction.ofKeyword? mode.sourceText
  | none => kind.defaultDirection

/-- The objects of an interface declaration, one for each identifier. -/
def declaredObjects : List (Object String) :=
  n.identifiers.map fun c => ⟨c.sourceText, kind, n.mode? kind,
    (n.child? (.rule .subtypeIndication)).map (fragment file),
    (n.child? (.rule .expression)).map (fragment file), n.fileSpan file⟩

variable {file kind n}

theorem result_direction_eq {d : Option Direction}
    (h : (n.direction kind : Naming (Option Direction)).result = .ok d) : d = n.mode? kind := by
  unfold direction at h
  unfold mode?
  cases hmode : n.child? (.rule .mode) with
  | some mode =>
    simp only [hmode] at h ⊢
    cases hd : Direction.ofKeyword? mode.sourceText with
    | some e =>
      rw [hd] at h
      cases h
      rfl
    | none =>
      rw [hd] at h
      cases h
  | none =>
    simp only [hmode] at h ⊢
    cases kind <;> exact (Except.ok.inj h).symm

theorem result_interfaceObjects_eq {os : List (Object String)}
    (h : (n.interfaceObjects file kind : Naming (List (Object String))).result = .ok os) :
    os = n.declaredObjects file kind := by
  obtain ⟨names, hnames, h⟩ := Traced.result_bind_eq_ok.mp h
  obtain ⟨direction, hdirection, h⟩ := Traced.result_bind_eq_ok.mp h
  obtain ⟨type, htype, h⟩ := Traced.result_bind_eq_ok.mp h
  obtain ⟨-, -, rfl⟩ := result_names_eq_ok.mp hnames
  cases h
  rw [declaredObjects, result_required_eq_ok.mp htype, ← result_direction_eq hdirection,
    Object.forNames, List.map_map]
  rfl

end Node

/-- The objects of a declaration over symbols: there is at least one, and looked up in the table
they are those of its identifiers. -/
structure Node.Declares (file : FileId) (kind : ObjectKind) (T : NameTable) (n : Node)
    (os : List (Object Symbol)) : Prop where
  nonempty : os ≠ []
  shown : os.map (Object.map T.resolve?) = (n.declaredObjects file kind).map (Object.map some)

/-- The objects of several declarations, block by block. -/
def Declare (file : FileId) (kind : ObjectKind) (T : NameTable) (ns : List Node)
    (os : List (Object Symbol)) : Prop :=
  ∃ blocks : List (List (Object Symbol)),
    os = blocks.flatten ∧ List.Forall₂ (Node.Declares file kind T) ns blocks

section Growth

variable {file : FileId} {kind : ObjectKind} {t T : NameTable}

theorem Object.shown_mono (hT : t.names <+: T.names) {os : List (Object Symbol)}
    {qs : List (Object String)} (h : os.map (Object.map t.resolve?) = qs.map (Object.map some)) :
    os.map (Object.map T.resolve?) = qs.map (Object.map some) := by
  induction os generalizing qs with
  | nil => exact h
  | cons o os ih =>
    cases qs with
    | nil => cases h
    | cons q qs =>
      obtain ⟨hhead, htail⟩ := List.cons.inj h
      have hname : t.resolve? o.name = some q.name := congrArg Object.name hhead
      have hobject : o.map T.resolve? = q.map some := by
        rw [← hhead, map, map, NameTable.resolve?_of_prefix hT hname, hname]
      rw [List.map_cons, List.map_cons, hobject, ih htail]

theorem Node.Declares.mono {n : Node} {os : List (Object Symbol)}
    (h : n.Declares file kind t os) (hT : t.names <+: T.names) : n.Declares file kind T os :=
  ⟨h.nonempty, Object.shown_mono hT h.shown⟩

theorem Declare.mono {ns : List Node} {os : List (Object Symbol)}
    (h : Declare file kind t ns os) (hT : t.names <+: T.names) : Declare file kind T ns os := by
  obtain ⟨blocks, hos, hblocks⟩ := h
  exact ⟨blocks, hos, hblocks.imp fun _ _ hblock => hblock.mono hT⟩

theorem declare_nil : Declare file kind t [] [] := ⟨[], rfl, .nil⟩

theorem Declare.cons {n : Node} {ns : List Node} {os os' : List (Object Symbol)}
    (hn : n.Declares file kind t os) (hns : Declare file kind t ns os') :
    Declare file kind t (n :: ns) (os ++ os') := by
  obtain ⟨blocks, rfl, hblocks⟩ := hns
  exact ⟨os :: blocks, rfl, .cons hn hblocks⟩

end Growth

namespace ClauseWalk

variable {file : FileId} {kind : ObjectKind}

/-- What the walk does at a node inside which it does not go on. -/
def stop (file : FileId) (kind : ObjectKind) (n : Node) : WalkM Unit :=
  if n.declaresInterface then append file kind n else handBack n

mutual

/-- The walk does nothing but what it does at its stops. -/
theorem walk_eq : ∀ n : Node, walk file kind n = forM n.stops (stop file kind)
  | ⟨_, _, _, cs⟩ => walkAmong_eq cs

theorem walkAmong_eq : ∀ cs : List Node,
    walkAmong file kind cs = forM (Node.stopsAmong cs) (stop file kind)
  | [] => rfl
  | c :: cs => by
    rw [walkAmong, Node.stopsAmong_cons, List.forM_append, ← walkAmong_eq cs, walk_eq c]
    congr 1
    cases htoken : c.isToken <;> cases hobject : c.kind.isInterfaceObject <;>
      cases hwrapper : c.kind.isInterfaceWrapper <;> cases hparts : c.hasObjectParts <;>
      simp [stop, Node.declaresInterface, hobject, hwrapper, hparts]

end

theorem run_inTable {α : Type} (x : TableM α) (w : ClauseWalk) :
    (inTable x).run w =
      match x.run w.names with
      | .ok a t => .ok a { w with names := t }
      | .error d t => .error d { w with names := t } := rfl

theorem run_handBack (n : Node) (w : ClauseWalk) :
    (handBack n).run w = .ok () { w with others := w.others ++ [n] } := rfl

theorem run_append_of_ok {n : Node} {w : ClauseWalk} {os : List (Object Symbol)} {t : NameTable}
    (h : (n.interfaceObjects file kind : TableM (List (Object Symbol))).run w.names = .ok os t) :
    (append file kind n).run w = .ok () { w with names := t, objects := w.objects ++ os } := by
  rw [append, EStateM.run_bind, run_inTable, h]
  rfl

theorem run_append_of_error {n : Node} {w : ClauseWalk} {d : Defect} {t : NameTable}
    (h : (n.interfaceObjects file kind : TableM (List (Object Symbol))).run w.names = .error d t) :
    (append file kind n).run w = .error d { w with names := t } := by
  rw [append, EStateM.run_bind, run_inTable, h]

/-- An object declaration is appended as a whole, or not at all if it is ill formed. -/
theorem append_cases (file : FileId) (kind : ObjectKind) (n : Node) (w : ClauseWalk) :
    ∃ t : NameTable, w.names.names <+: t.names ∧
      ((∃ os, n.IsInterfaceObject ∧ n.Declares file kind t os ∧
        (append file kind n).run w = .ok () { w with names := t, objects := w.objects ++ os }) ∨
      ∃ d, ¬n.IsInterfaceObject ∧
        (n.interfaceObjects file kind : Naming (List (Object String))).result = .error d ∧
        (append file kind n).run w = .error d { w with names := t }) := by
  let x : Naming (List (Object String)) := n.interfaceObjects file kind
  refine ⟨followAll w.names x.trace, prefix_followAll w.names x.trace, ?_⟩
  have hrun := n.replays_interfaceObjects (T := followAll w.names x.trace) file kind w.names
    List.prefix_rfl
  cases hx : x.result with
  | ok qs =>
    rw [hx] at hrun
    obtain ⟨os, hos, hshown⟩ := hrun
    have hobject : n.IsInterfaceObject := Node.succeeds_interfaceObjects.mp ⟨qs, hx⟩
    rw [Node.result_interfaceObjects_eq hx] at hshown
    have hne : os ≠ [] := by
      rintro rfl
      have hnone : n.identifiers = [] := by simpa [Node.declaredObjects] using hshown.symm
      exact hobject.nonempty hnone
    exact .inl ⟨os, hobject, ⟨hne, hshown⟩, run_append_of_ok hos⟩
  | error d =>
    rw [hx] at hrun
    refine .inr ⟨d, fun hobject => ?_, rfl, run_append_of_error hrun⟩
    obtain ⟨qs, hqs⟩ : x.Succeeds := Node.succeeds_interfaceObjects.mpr hobject
    cases hx.symm.trans hqs

/-- The walk got past these stops. -/
structure Passes (file : FileId) (kind : ObjectKind) (cs : List Node) (w w' : ClauseWalk) :
    Prop where
  names : w.names.names <+: w'.names.names
  wellFormed : ∀ c ∈ cs.filter Node.declaresInterface, c.IsInterfaceObject
  objects : ∃ os, w'.objects = w.objects ++ os ∧
    Declare file kind w'.names (cs.filter Node.declaresInterface) os
  others : w'.others = w.others ++ cs.filter fun c => !c.declaresInterface

/-- The walk came to an end at the first object declaration that is ill formed. -/
structure Ends (file : FileId) (kind : ObjectKind) (cs : List Node) (d : Defect)
    (w w' : ClauseWalk) : Prop where
  names : w.names.names <+: w'.names.names
  objects : ∃ before c after os, cs.filter Node.declaresInterface = before ++ c :: after ∧
    (∀ b ∈ before, b.IsInterfaceObject) ∧ ¬c.IsInterfaceObject ∧
    (c.interfaceObjects file kind : Naming (List (Object String))).result = .error d ∧
    w'.objects = w.objects ++ os ∧ Declare file kind w'.names before os

section Steps

variable {c : Node} {cs : List Node} {d : Defect} {t : NameTable} {os : List (Object Symbol)}
variable {w w' : ClauseWalk}

theorem Passes.handBack (hc : c.declaresInterface = false)
    (h : Passes file kind cs { w with others := w.others ++ [c] } w') :
    Passes file kind (c :: cs) w w' := by
  have hobjects : (c :: cs).filter Node.declaresInterface = cs.filter Node.declaresInterface :=
    List.filter_cons_of_neg (by simp [hc])
  refine ⟨h.names, hobjects ▸ h.wellFormed, hobjects ▸ h.objects, ?_⟩
  rw [h.others, List.filter_cons_of_pos (by simp [hc]), List.append_assoc, List.singleton_append]

theorem Ends.handBack (hc : c.declaresInterface = false)
    (h : Ends file kind cs d { w with others := w.others ++ [c] } w') :
    Ends file kind (c :: cs) d w w' := by
  have hobjects : (c :: cs).filter Node.declaresInterface = cs.filter Node.declaresInterface :=
    List.filter_cons_of_neg (by simp [hc])
  exact ⟨h.names, hobjects ▸ h.objects⟩

theorem Passes.append (hc : c.declaresInterface = true) (ht : w.names.names <+: t.names)
    (hobject : c.IsInterfaceObject) (hos : c.Declares file kind t os)
    (h : Passes file kind cs { w with names := t, objects := w.objects ++ os } w') :
    Passes file kind (c :: cs) w w' := by
  have hobjects : (c :: cs).filter Node.declaresInterface =
      c :: cs.filter Node.declaresInterface := List.filter_cons_of_pos hc
  obtain ⟨rest, hrest, hdeclare⟩ := h.objects
  refine ⟨ht.trans h.names, ?_, ⟨os ++ rest, ?_, ?_⟩, ?_⟩
  · rw [hobjects]
    exact List.forall_mem_cons.mpr ⟨hobject, h.wellFormed⟩
  · rw [hrest, List.append_assoc]
  · rw [hobjects]
    exact hdeclare.cons (hos.mono h.names)
  · rw [h.others, List.filter_cons_of_neg (by simp [hc])]

theorem Ends.append (hc : c.declaresInterface = true) (ht : w.names.names <+: t.names)
    (hobject : c.IsInterfaceObject) (hos : c.Declares file kind t os)
    (h : Ends file kind cs d { w with names := t, objects := w.objects ++ os } w') :
    Ends file kind (c :: cs) d w w' := by
  obtain ⟨before, e, after, rest, hsplit, hbefore, he, hd, hrest, hdeclare⟩ := h.objects
  refine ⟨ht.trans h.names, c :: before, e, after, os ++ rest, ?_, ?_, he, hd, ?_, ?_⟩
  · rw [List.filter_cons_of_pos hc, hsplit, List.cons_append]
  · exact List.forall_mem_cons.mpr ⟨hobject, hbefore⟩
  · rw [hrest, List.append_assoc]
  · exact hdeclare.cons (hos.mono h.names)

theorem ends_of_defect (hc : c.declaresInterface = true) (ht : w.names.names <+: t.names)
    (hobject : ¬c.IsInterfaceObject)
    (hd : (c.interfaceObjects file kind : Naming (List (Object String))).result = .error d) :
    Ends file kind (c :: cs) d w { w with names := t } := by
  refine ⟨ht, [], c, cs.filter Node.declaresInterface, [], ?_, nofun, hobject, hd, ?_, declare_nil⟩
  · rw [List.filter_cons_of_pos hc, List.nil_append]
  · rw [List.append_nil]

end Steps

theorem run_stops (file : FileId) (kind : ObjectKind) (cs : List Node) (w : ClauseWalk) :
    match (forM cs (stop file kind)).run w with
    | .ok _ w' => Passes file kind cs w w'
    | .error d w' => Ends file kind cs d w w' := by
  induction cs generalizing w with
  | nil =>
    exact ⟨List.prefix_rfl, nofun, ⟨[], (List.append_nil _).symm, declare_nil⟩,
      (List.append_nil _).symm⟩
  | cons c cs ih =>
    rw [List.forM_cons, EStateM.run_bind, stop]
    cases hc : c.declaresInterface with
    | false =>
      rw [if_neg Bool.false_ne_true, run_handBack]
      have hrest := ih { w with others := w.others ++ [c] }
      split at hrest
      · rename_i hrun
        simp only [hrun]
        exact hrest.handBack hc
      · rename_i hrun
        simp only [hrun]
        exact hrest.handBack hc
    | true =>
      obtain ⟨t, ht, ⟨os, hobject, hos, hrun⟩ | ⟨d, hobject, hd, hrun⟩⟩ :=
        append_cases file kind c w
      · rw [if_pos rfl, hrun]
        have hrest := ih { w with names := t, objects := w.objects ++ os }
        split at hrest
        · rename_i hrun
          simp only [hrun]
          exact hrest.append hc ht hobject hos
        · rename_i hrun
          simp only [hrun]
          exact hrest.append hc ht hobject hos
      · rw [if_pos rfl, hrun]
        exact ends_of_defect hc ht hobject hd

end ClauseWalk

namespace ObjectList

theorem run_readClause (file : FileId) (kind : ObjectKind) (clause : Node) (l : ObjectList) :
    (readClause file kind clause).run l =
      match (ClauseWalk.walk file kind clause).run ⟨l, []⟩ with
      | .ok _ w => .ok w.others w.toObjectList
      | .error d w => .error d w.toObjectList := rfl

/-- Of the nodes at which the walk stops each is an object declaration or is handed back, in the
order of the visits. If all object declarations are well formed, the list is extended by their
objects, and if not, by those of the declarations in front of the first one that is ill formed. -/
theorem readClause_partitions (file : FileId) (kind : ObjectKind) (clause : Node) (l : ObjectList) :
    (clause.objectStops ++ clause.otherStops).Perm
        (clause.visits.filter fun c => !c.isPassage) ∧
      match (readClause file kind clause).run l with
      | .ok others l' =>
        l.names.names <+: l'.names.names ∧ others = clause.otherStops ∧
          (∀ c ∈ clause.objectStops, c.IsInterfaceObject) ∧
          ∃ os, l'.objects = l.objects ++ os ∧ Declare file kind l'.names clause.objectStops os
      | .error d l' =>
        l.names.names <+: l'.names.names ∧
          ∃ before c after os, clause.objectStops = before ++ c :: after ∧
            (∀ b ∈ before, b.IsInterfaceObject) ∧ ¬c.IsInterfaceObject ∧
            (c.interfaceObjects file kind : Naming (List (Object String))).result = .error d ∧
            l'.objects = l.objects ++ os ∧ Declare file kind l'.names before os := by
  refine ⟨List.filter_append_perm _ _, ?_⟩
  have hwalk := ClauseWalk.run_stops file kind clause.stops ⟨l, []⟩
  rw [← ClauseWalk.walk_eq] at hwalk
  rw [run_readClause]
  split at hwalk
  · rename_i hrun
    simp only [hrun]
    exact ⟨hwalk.names, hwalk.others, hwalk.wellFormed, hwalk.objects⟩
  · rename_i hrun
    simp only [hrun]
    exact ⟨hwalk.names, hwalk.objects⟩

/-- Two ports in a wrapper, a type, and two bare ports, the first of them with an unknown mode. -/
def cutPorts : Node :=
  let ident (s : String) : Node := .leaf (.rule .identifier) ⟨0, 1⟩ s
  let mode (s : String) : Node := .leaf (.rule .mode) ⟨1, 2⟩ s
  let bit : Node := .leaf (.rule .subtypeIndication) ⟨2, 3⟩ "bit"
  let clocks : Node := .branch (.rule .interfaceSignalDeclaration) ⟨0, 3⟩
    [.branch (.rule .identifierList) ⟨0, 1⟩ [ident "clk", ident "rst"], mode "in", bit]
  .branch (.rule .portClause) ⟨0, 20⟩
    [.leaf (.other "PORT") ⟨0, 1⟩ "port", .branch (.rule .interfaceList) ⟨1, 19⟩
      [.branch (.rule .interfaceElement) ⟨1, 4⟩ [clocks],
        .leaf (.rule .interfaceTypeDeclaration) ⟨5, 6⟩ "type t",
        .branch (.rule .interfaceElement) ⟨7, 10⟩ [ident "q", mode "sideways", bit],
        .branch (.rule .interfaceElement) ⟨11, 14⟩ [ident "r", bit]]]

theorem cutPorts_partitioned :
    let l : ObjectList := ⟨⟨["x"], by decide⟩, [⟨⟨0⟩, .port, none, none, none, ⟨⟨0⟩, ⟨0, 0⟩⟩⟩]⟩
    cutPorts.objectStops.length = 3 ∧ cutPorts.otherStops.length = 1 ∧
      match (readClause ⟨0⟩ .port cutPorts).run l with
      | .ok _ _ => False
      | .error d l' => l'.objects.length = 3 ∧
          ∃ before c after os, cutPorts.objectStops = before ++ c :: after ∧
            (∀ b ∈ before, b.IsInterfaceObject) ∧ ¬c.IsInterfaceObject ∧
            (c.interfaceObjects ⟨0⟩ .port : Naming (List (Object String))).result = .error d ∧
            l'.objects = l.objects ++ os ∧ Declare ⟨0⟩ .port l'.names before os := by
  intro l
  refine ⟨by decide +kernel, by decide +kernel, ?_⟩
  have hlength : (match (readClause ⟨0⟩ .port cutPorts).run l with
      | .ok _ _ => none
      | .error _ l' => some l'.objects.length) = some 3 := by
    decide +kernel
  have hread := (readClause_partitions ⟨0⟩ .port cutPorts l).2
  cases hrun : (readClause ⟨0⟩ .port cutPorts).run l with
  | ok others l' =>
    rw [hrun] at hlength
    cases hlength
  | error d l' =>
    rw [hrun] at hlength hread
    exact ⟨Option.some.inj hlength, hread.2⟩

end ObjectList

/-- A node at which the walk stops, told apart from the others. -/
def InterfaceItem.ofStop (n : Node) : InterfaceItem :=
  if n.declaresInterface then .object n else .other n

namespace Node

mutual

theorem interfaceItems_eq_map : ∀ n : Node, n.interfaceItems = n.stops.map InterfaceItem.ofStop
  | ⟨_, _, _, cs⟩ => interfaceItemsAmong_eq_map cs

theorem interfaceItemsAmong_eq_map : ∀ cs : List Node,
    interfaceItemsAmong cs = (stopsAmong cs).map InterfaceItem.ofStop
  | [] => rfl
  | c :: cs => by
    rw [interfaceItemsAmong, stopsAmong_cons, List.map_append, interfaceItemsAmong_eq_map cs,
      interfaceItems_eq_map c]
    congr 1
    cases htoken : c.isToken <;> cases hobject : c.declaresInterface <;>
      cases hwrapper : c.kind.isInterfaceWrapper <;> simp [InterfaceItem.ofStop, hobject]

end

end Node

theorem InterfaceItem.filterMap_other? (cs : List Node) :
    (cs.map ofStop).filterMap other? = cs.filter fun c => !c.declaresInterface := by
  induction cs with
  | nil => rfl
  | cons c cs ih =>
    rw [List.map_cons, List.filterMap_cons, List.filter_cons, ih, ofStop]
    cases c.declaresInterface <;> rfl

namespace InterfaceList

variable (file : FileId) (kind : ObjectKind)

theorem run_itemObjects (c : Node) (w : ClauseWalk) :
    match (ClauseWalk.stop file kind c).run w with
    | .ok _ w' => ∃ os,
        (itemObjects file kind (.ofStop c) : TableM (List (Object Symbol))).run w.names =
          .ok os w'.names ∧ w'.objects = w.objects ++ os
    | .error d w' =>
      (itemObjects file kind (.ofStop c) : TableM (List (Object Symbol))).run w.names =
        .error d w'.names := by
  rw [ClauseWalk.stop, InterfaceItem.ofStop]
  cases c.declaresInterface with
  | false => exact ⟨[], rfl, (List.append_nil _).symm⟩
  | true =>
    cases hrun : (c.interfaceObjects file kind : TableM (List (Object Symbol))).run w.names with
    | ok os t =>
      rw [if_pos rfl, if_pos rfl, ClauseWalk.run_append_of_ok hrun]
      exact ⟨os, hrun, rfl⟩
    | error d t =>
      rw [if_pos rfl, if_pos rfl, ClauseWalk.run_append_of_error hrun]
      exact hrun

theorem run_mapM_stops (cs : List Node) (w : ClauseWalk) :
    let read : TableM (List (List (Object Symbol))) :=
      (cs.map InterfaceItem.ofStop).mapM (itemObjects file kind)
    match (forM cs (ClauseWalk.stop file kind)).run w with
    | .ok _ w' => ∃ oss, read.run w.names = .ok oss w'.names ∧
        w'.objects = w.objects ++ oss.flatten
    | .error d w' => read.run w.names = .error d w'.names := by
  induction cs generalizing w with
  | nil => exact ⟨[], rfl, (List.append_nil _).symm⟩
  | cons c cs ih =>
    intro read
    have hfirst := run_itemObjects file kind c w
    have hread : read = do
        let os ← itemObjects file kind (.ofStop c)
        let oss ← (cs.map InterfaceItem.ofStop).mapM (itemObjects file kind)
        return os :: oss := List.mapM_cons
    rw [List.forM_cons, EStateM.run_bind, hread, EStateM.run_bind]
    split at hfirst
    · rename_i w₁ hrun
      obtain ⟨os, hos, hobjects⟩ := hfirst
      have hrest := ih w₁
      simp only [hrun, hos]
      split at hrest
      · rename_i hrun'
        obtain ⟨oss, hoss, hobjects'⟩ := hrest
        simp only [hrun', EStateM.run_bind, hoss]
        exact ⟨os :: oss, rfl, by simp [hobjects, hobjects']⟩
      · rename_i hrun'
        simp only [hrun', EStateM.run_bind, hrest]
    · rename_i hrun
      simp only [hrun, hfirst]

/-- A clause that is read by itself is read into an empty list. -/
theorem run_ofNode (clause : Node) (t : NameTable) :
    (ofNode file kind clause : TableM (InterfaceList Symbol)).run t =
      match (ObjectList.readClause file kind clause).run ⟨t, []⟩ with
      | .ok others l => .ok ⟨l.objects, others⟩ l.names
      | .error d l => .error d l.names := by
  have hread := run_mapM_stops file kind clause.stops ⟨⟨t, []⟩, []⟩
  have hwalk := ClauseWalk.run_stops file kind clause.stops ⟨⟨t, []⟩, []⟩
  rw [ofNode, EStateM.run_bind, clause.interfaceItems_eq_map, ObjectList.run_readClause,
    ClauseWalk.walk_eq]
  split at hread
  · rename_i hrun
    obtain ⟨oss, hoss, hobjects⟩ := hread
    simp only [hrun] at hwalk ⊢
    simp only [hoss, InterfaceItem.filterMap_other?, hobjects, hwalk.others, List.nil_append]
    rfl
  · rename_i hrun
    simp only [hrun, hread]

/-- Of these declarations, and others, objects are read in front of the first that is ill formed. -/
theorem valuesBeforeFailure_stops {cs before after : List Node}
    (hsplit : cs.filter Node.declaresInterface = before ++ after)
    (hbefore : ∀ b ∈ before, b.IsInterfaceObject)
    (hafter : ∀ c ∈ after.head?, ¬c.IsInterfaceObject) :
    (Traced.valuesBeforeFailure ((cs.map InterfaceItem.ofStop).map
      (itemObjects file kind : InterfaceItem → Naming (List (Object String))))).flatten =
      before.flatMap (Node.declaredObjects file kind) := by
  induction cs generalizing before with
  | nil =>
    obtain ⟨rfl, rfl⟩ := List.append_eq_nil_iff.mp hsplit.symm
    rfl
  | cons c cs ih =>
    rw [List.map_cons, List.map_cons, InterfaceItem.ofStop]
    cases hc : c.declaresInterface with
    | false =>
      rw [List.filter_cons_of_neg (by simp [hc])] at hsplit
      exact ih hsplit hbefore
    | true =>
      rw [List.filter_cons_of_pos hc] at hsplit
      rw [if_pos rfl, Traced.valuesBeforeFailure, itemObjects]
      cases before with
      | nil =>
        have hill : ¬c.IsInterfaceObject := by
          rw [List.nil_append] at hsplit
          exact hafter c (by rw [← hsplit]; rfl)
        cases hx : (c.interfaceObjects file kind : Naming (List (Object String))).result with
        | ok qs => exact absurd (Node.succeeds_interfaceObjects.mp ⟨qs, hx⟩) hill
        | error d => rfl
      | cons b before =>
        obtain ⟨rfl, hrest⟩ := List.cons.inj hsplit
        obtain ⟨hb, hbefore⟩ := List.forall_mem_cons.mp hbefore
        obtain ⟨qs, hqs⟩ :
            (c.interfaceObjects file kind : Naming (List (Object String))).Succeeds :=
          Node.succeeds_interfaceObjects.mpr hb
        simp only [hqs, List.flatten_cons, List.flatMap_cons]
        rw [ih hrest hbefore, Node.result_interfaceObjects_eq hqs]

end InterfaceList

theorem Declare.shown {file : FileId} {kind : ObjectKind} {T : NameTable} {ns : List Node}
    {os : List (Object Symbol)} (h : Declare file kind T ns os) :
    os.map (Object.map T.resolve?) =
      (ns.flatMap (Node.declaredObjects file kind)).map (Object.map some) := by
  obtain ⟨blocks, rfl, hblocks⟩ := h
  induction hblocks with
  | nil => rfl
  | cons hblock _ ih =>
    rw [List.flatten_cons, List.map_append, hblock.shown, ih, List.flatMap_cons, List.map_append]

/-- A list is extended by the objects that are read in front of the first defect. -/
theorem ObjectList.objects_readClause (file : FileId) (kind : ObjectKind) (clause : Node)
    (l : ObjectList) :
    match (readClause file kind clause).run l with
    | .ok _ l' | .error _ l' => ∃ os, l'.objects = l.objects ++ os ∧
        os.map (Object.map l'.names.resolve?) =
          (InterfaceList.objectsRead file kind clause).map (Object.map some) := by
  have hwalk := ClauseWalk.run_stops file kind clause.stops ⟨l, []⟩
  rw [← ClauseWalk.walk_eq] at hwalk
  rw [run_readClause, InterfaceList.objectsRead, clause.interfaceItems_eq_map]
  split at hwalk
  · rename_i hrun
    obtain ⟨os, hos, hdeclare⟩ := hwalk.objects
    have hread := InterfaceList.valuesBeforeFailure_stops file kind
      (List.append_nil _).symm hwalk.wellFormed nofun
    simp only [hrun, hread]
    exact ⟨os, hos, hdeclare.shown⟩
  · rename_i hrun
    obtain ⟨before, c, after, os, hsplit, hbefore, hc, -, hos, hdeclare⟩ := hwalk.objects
    have hhead : ∀ e ∈ (c :: after).head?, ¬e.IsInterfaceObject := by
      rintro e ⟨⟩
      exact hc
    have hread := InterfaceList.valuesBeforeFailure_stops file kind hsplit hbefore hhead
    simp only [hrun, hread]
    exact ⟨os, hos, hdeclare.shown⟩

end VhdlLowering
