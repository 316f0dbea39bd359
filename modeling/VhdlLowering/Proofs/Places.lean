import VhdlLowering.Proofs.Likeness

/-!
# Where skipped constructs stand

A node of a tree is found by its path: the numbers of the children on the way down to it. Each entry of
the log is about a node at some path, and why that node is skipped can be told from the nodes on the
way.
-/

namespace VhdlLowering
namespace Node

/-- The node at a path. -/
def at? : Node → List Nat → Option Node
  | n, [] => some n
  | n, i :: path => n.children[i]?.bind fun c => c.at? path

/-- The tree with another node at a path. -/
def modifyAt (f : Node → Node) : List Nat → Node → Node
  | [], n => f n
  | i :: path, n => { n with children := n.children.modify i (modifyAt f path) }

@[simp] theorem at?_nil (n : Node) : n.at? [] = some n := rfl

theorem at?_cons (n : Node) (i : Nat) (path : List Nat) :
    n.at? (i :: path) = n.children[i]?.bind fun c => c.at? path := rfl

theorem at?_cons_of_getElem? {n c : Node} {i : Nat} (hi : n.children[i]? = some c)
    (path : List Nat) : n.at? (i :: path) = c.at? path := by
  rw [at?_cons, hi, Option.bind_some]

theorem at?_append (n : Node) (path path' : List Nat) :
    n.at? (path ++ path') = (n.at? path).bind fun c => c.at? path' := by
  induction path generalizing n with
  | nil => rfl
  | cons i path ih =>
    rw [List.cons_append, at?_cons, at?_cons, Option.bind_assoc]
    simp only [ih]

theorem at?_append_of_at? {n c : Node} {path : List Nat} (h : n.at? path = some c)
    (path' : List Nat) : n.at? (path ++ path') = c.at? path' := by
  rw [at?_append, h, Option.bind_some]

@[simp] theorem modifyAt_nil (f : Node → Node) (n : Node) : modifyAt f [] n = f n := rfl

theorem modifyAt_append (f : Node → Node) (path path' : List Nat) :
    modifyAt f (path ++ path') = modifyAt (modifyAt f path') path := by
  induction path with
  | nil => rfl
  | cons i path ih =>
    funext n
    rw [List.cons_append, modifyAt, modifyAt, ih]

/-- The first child of a kind, with its number. -/
structure FirstAt (n : Node) (r : Rule) (i : Nat) (c : Node) : Prop where
  child : n.children[i]? = some c
  kind : c.kind = .rule r
  first : ∀ j < i, ∀ d, n.children[j]? = some d → d.kind ≠ .rule r

theorem exists_firstAt {n c : Node} {r : Rule} (h : n.child? (.rule r) = some c) :
    ∃ i, n.FirstAt r i c := by
  obtain ⟨hc, before, after, hchildren, hbefore⟩ := List.find?_eq_some_iff_append.mp h
  refine ⟨before.length, by simp [hchildren], by simpa using hc, fun j hj d hd => ?_⟩
  rw [hchildren, List.getElem?_append_left hj] at hd
  simpa using hbefore d (List.mem_of_getElem? hd)

/-- Where a part of a unit of a design file stands: in the file itself or in a unit. -/
inductive PartAt (root : Node) : List Nat → Node → Prop
  | inFile {i : Nat} {p : Node} (hi : root.children[i]? = some p) (htoken : p.isToken = false)
      (hkind : p.kind ≠ .rule .designUnit) : PartAt root [i] p
  | inUnit {i j : Nat} {u p : Node} (hi : root.children[i]? = some u)
      (hkind : u.kind = .rule .designUnit) (hj : u.children[j]? = some p)
      (htoken : p.isToken = false) : PartAt root [i, j] p

/-- Where the library unit stands in its wrappers. -/
inductive UnitAt : Node → List Nat → Node → Prop
  | unit {n : Node} (h : isUnitWrapper n.kind = false ∨ n.phrases = []) : UnitAt n [] n
  | wrapper {n c u : Node} {i : Nat} {path : List Nat} (hkind : isUnitWrapper n.kind = true)
      (hi : n.children[i]? = some c) (htoken : c.isToken = false)
      (hfirst : ∀ j < i, ∀ d, n.children[j]? = some d → d.isToken = true) (h : UnitAt c path u) :
      UnitAt n (i :: path) u

/-- Where the declaration of an item of a package stands: it is the item or a child of it. -/
inductive ClassifiedAt (c : Node) : List Nat → Prop
  | itself (h : (DeclarativeItem.classify c).node = c) : ClassifiedAt c []
  | wrapped {d : Node} {r : Rule} {i : Nat} (hkind : c.kind = .rule .packageDeclarativeItem)
      (hi : c.FirstAt r i d) (h : DeclarativeItem.classify c = .bare d) : ClassifiedAt c [i]

/-- Where the nodes stand that the walk through an interface clause hands back. -/
inductive HandsBack : Node → List Nat → Node → Prop
  | other {n c : Node} {i : Nat} (hi : n.children[i]? = some c) (htoken : c.isToken = false)
      (hobject : c.declaresInterface = false) (hwrapper : c.kind.isInterfaceWrapper = false) :
      HandsBack n [i] c
  | wrapped {n w c : Node} {i : Nat} {path : List Nat} (hi : n.children[i]? = some w)
      (htoken : w.isToken = false) (hobject : w.declaresInterface = false)
      (hwrapper : w.kind.isInterfaceWrapper = true) (h : HandsBack w path c) :
      HandsBack n (i :: path) c

end Node

/-- What is skipped, and by which rule. -/
inductive Construct where
  | item (u : Unsupported)
  | genericClause
  | genericMapAspect
  | interface
  | contextItem
  | libraryUnit
deriving DecidableEq

def Construct.label : Construct → String
  | item u => u.label
  | genericClause => "PackageHeaderParser.visitGeneric_clause"
  | genericMapAspect => "PackageHeaderParser.visitGeneric_map_aspect"
  | interface => "InterfaceParser.visitInterface_declaration"
  | contextItem => "DesignFileParser.visitContext_item"
  | libraryUnit => "DesignFileParser.visitLibrary_unit"

/-- The constructs that are skipped in an item of a package: the item, parts of the header of a
package, interface declarations of a component, and what is skipped in the items of a package. -/
inductive DeclarativeItem.Skips : DeclarativeItem → List Nat → Construct → Node → Prop
  | item {u : Unsupported} {n : Node} : Skips ⟨.unsupported u, n⟩ [] (.item u) n
  | interface {n clause c : Node} {r : Rule} {i : Nat} {path : List Nat}
      (hr : r = .genericClause ∨ r = .portClause) (hi : n.FirstAt r i clause)
      (h : clause.HandsBack path c) : Skips ⟨.component, n⟩ (i :: path) .interface c
  | genericClause {n header c : Node} {i j : Nat} (hi : n.FirstAt .packageHeader i header)
      (hj : header.FirstAt .genericClause j c) : Skips ⟨.package, n⟩ [i, j] .genericClause c
  | genericMapAspect {n header c : Node} {i j : Nat} (hi : n.FirstAt .packageHeader i header)
      (hj : header.FirstAt .genericMapAspect j c) : Skips ⟨.package, n⟩ [i, j] .genericMapAspect c
  | inner {n part c d : Node} {i j : Nat} {path path' : List Nat} {x : Construct}
      (hi : n.FirstAt .packageDeclarativePart i part) (hj : part.children[j]? = some c)
      (hpath : c.ClassifiedAt path) (h : Skips (classify c) path' x d) :
      Skips ⟨.package, n⟩ (i :: j :: (path ++ path')) x d

/-- The constructs that are skipped in a design file. -/
inductive DesignFile.Skips (root : Node) : List Nat → Construct → Node → Prop
  | clause {p c : Node} {path : List Nat} {i : Nat} (hp : root.PartAt path p)
      (hkind : p.kind = .rule .contextClause) (hi : p.children[i]? = some c)
      (htoken : c.isToken = false) : Skips root (path ++ [i]) .contextItem c
  | contextItem {p : Node} {path : List Nat} (hp : root.PartAt path p)
      (hkind : p.kind = .rule .contextItem ∨ p.kind = .rule .libraryClause ∨
        p.kind = .rule .useClause) : Skips root path .contextItem p
  | libraryUnit {p u : Node} {path path' : List Nat} (hp : root.PartAt path p)
      (hcontext : p.kind.isContext = false) (hu : p.UnitAt path' u)
      (hkind : u.kind ≠ .rule .packageDeclaration) : Skips root (path ++ path') .libraryUnit u
  | inPackage {p u c : Node} {path path' path'' : List Nat} {x : Construct}
      (hp : root.PartAt path p) (hcontext : p.kind.isContext = false) (hu : p.UnitAt path' u)
      (hkind : u.kind = .rule .packageDeclaration)
      (h : DeclarativeItem.Skips ⟨.package, u⟩ path'' x c) :
      Skips root (path ++ path' ++ path'') x c

namespace Node

theorem PartAt.at? {root p : Node} {path : List Nat} (h : root.PartAt path p) :
    root.at? path = some p := by
  cases h with
  | inFile hi => rw [at?_cons_of_getElem? hi, at?_nil]
  | inUnit hi _ hj => rw [at?_cons_of_getElem? hi, at?_cons_of_getElem? hj, at?_nil]

theorem UnitAt.at? {n u : Node} {path : List Nat} (h : n.UnitAt path u) :
    n.at? path = some u := by
  induction h with
  | unit => rfl
  | wrapper _ hi _ _ _ ih => rw [at?_cons_of_getElem? hi, ih]

theorem ClassifiedAt.at? {c : Node} {path : List Nat} (h : c.ClassifiedAt path) :
    c.at? path = some (DeclarativeItem.classify c).node := by
  cases h with
  | itself h => rw [h, at?_nil]
  | wrapped _ hi h => rw [at?_cons_of_getElem? hi.child, at?_nil, h, DeclarativeItem.bare]

theorem HandsBack.at? {n c : Node} {path : List Nat} (h : n.HandsBack path c) :
    n.at? path = some c := by
  induction h with
  | other hi => rw [at?_cons_of_getElem? hi, at?_nil]
  | wrapped hi _ _ _ _ ih => rw [at?_cons_of_getElem? hi, ih]

end Node

open Node (at?_cons_of_getElem? at?_append_of_at?)

theorem DeclarativeItem.Skips.at? {item : DeclarativeItem} {path : List Nat} {x : Construct}
    {c : Node} (h : item.Skips path x c) : item.node.at? path = some c := by
  induction h with
  | item => rfl
  | interface _ hi h => rw [at?_cons_of_getElem? hi.child, h.at?]
  | genericClause hi hj | genericMapAspect hi hj =>
    rw [at?_cons_of_getElem? hi.child, at?_cons_of_getElem? hj.child, Node.at?_nil]
  | inner hi hj hpath _ ih =>
    rw [at?_cons_of_getElem? hi.child, at?_cons_of_getElem? hj, at?_append_of_at? hpath.at?, ih]

theorem DesignFile.Skips.at? {root c : Node} {path : List Nat} {x : Construct}
    (h : Skips root path x c) : root.at? path = some c := by
  cases h with
  | clause hp _ hi => rw [at?_append_of_at? hp.at?, at?_cons_of_getElem? hi, Node.at?_nil]
  | contextItem hp => exact hp.at?
  | libraryUnit hp _ hu => rw [at?_append_of_at? hp.at?, hu.at?]
  | inPackage hp _ hu _ h =>
    rw [List.append_assoc, at?_append_of_at? hp.at?, at?_append_of_at? hu.at?, h.at?]

namespace Node

theorem exists_partAt {root p : Node} (h : p ∈ root.unitParts) : ∃ path, root.PartAt path p := by
  obtain ⟨u, hu, hp⟩ := List.mem_flatMap.mp h
  obtain ⟨hmem, htoken⟩ := List.mem_filter.mp hu
  obtain ⟨i, hi⟩ := List.mem_iff_getElem?.mp hmem
  split at hp
  · rename_i hkind
    obtain ⟨hmem, htoken⟩ := List.mem_filter.mp hp
    obtain ⟨j, hj⟩ := List.mem_iff_getElem?.mp hmem
    exact ⟨[i, j], .inUnit hi hkind hj (by simpa using htoken)⟩
  · rename_i hkind
    cases List.mem_singleton.mp hp
    exact ⟨[i], .inFile hi (by simpa using htoken) hkind⟩

theorem Unwraps.exists_unitAt {n u : Node} (h : n.Unwraps u) : ∃ path, n.UnitAt path u := by
  induction h with
  | unit h => exact ⟨[], .unit h⟩
  | wrapper hkind hc _ ih =>
    obtain ⟨path, hpath⟩ := ih
    obtain ⟨before, after, hchildren, hbefore, htoken, -⟩ := List.filter_eq_cons_iff.mp hc
    refine ⟨before.length :: path, .wrapper hkind (by simp [hchildren]) (by simpa using htoken)
      (fun j hj d hd => ?_) hpath⟩
    rw [hchildren, List.getElem?_append_left hj] at hd
    simpa using hbefore d (List.mem_of_getElem? hd)

theorem exists_classifiedAt (c : Node) : ∃ path, c.ClassifiedAt path := by
  by_cases hkind : c.kind = .rule .packageDeclarativeItem
  · cases hfound : Rule.declarations.findSome? fun r => c.child? (.rule r) with
    | none =>
      refine ⟨[], .itself ?_⟩
      simp only [DeclarativeItem.classify, if_pos hkind, hfound]
    | some d =>
      obtain ⟨r, -, hr⟩ := List.exists_of_findSome?_eq_some hfound
      obtain ⟨i, hi⟩ := exists_firstAt hr
      refine ⟨[i], .wrapped hkind hi ?_⟩
      simp only [DeclarativeItem.classify, if_pos hkind, hfound]
  · exact ⟨[], .itself (by rw [DeclarativeItem.classify, if_neg hkind, DeclarativeItem.bare])⟩

theorem Holds.exists_handsBack {clause c : Node} {item : InterfaceItem} (h : clause.Holds item)
    (hc : item.other? = some c) : ∃ path, clause.HandsBack path c := by
  induction h with
  | object => cases hc
  | wrapped hw hobject hwrapper _ ih =>
    obtain ⟨path, hpath⟩ := ih hc
    obtain ⟨hmem, htoken⟩ := List.mem_filter.mp hw
    obtain ⟨i, hi⟩ := List.mem_iff_getElem?.mp hmem
    exact ⟨i :: path, .wrapped hi (by simpa using htoken) hobject hwrapper hpath⟩
  | other hd hobject hwrapper =>
    cases hc
    obtain ⟨hmem, htoken⟩ := List.mem_filter.mp hd
    obtain ⟨i, hi⟩ := List.mem_iff_getElem?.mp hmem
    exact ⟨[i], .other hi (by simpa using htoken) hobject hwrapper⟩

end Node

namespace Lowering

variable {α β γ : Type} {P Q : Skipped → Prop}

/-- Every entry that is logged has the property, also if `x` stops. -/
structure Logs (P : Skipped → Prop) (x : Lowering α) : Prop where
  holds : ∀ e ∈ x.skips, P e

theorem logs_pure (a : α) : Logs P (pure a) := ⟨nofun⟩

theorem logs_read (x : Naming α) : Logs P (read x : Lowering α) :=
  ⟨by rw [skips_read]; exact nofun⟩

theorem logs_skipAs {label : String} {n : Node} (h : P (.ofNode label n)) :
    Logs P (n.skipAs label) := ⟨List.forall_mem_singleton.mpr h⟩

theorem Logs.imp {x : Lowering α} (h : Logs P x) (hPQ : ∀ e, P e → Q e) : Logs Q x :=
  ⟨fun e he => hPQ e (h.holds e he)⟩

theorem Logs.bind {x : Lowering α} {f : α → Lowering β} (hx : Logs P x)
    (hf : ∀ a, x.result = .ok a → Logs P (f a)) : Logs P (x >>= f) := by
  cases h : x.result with
  | error d =>
    rw [Traced.bind_of_error f h]
    exact ⟨hx.holds⟩
  | ok a =>
    refine ⟨fun e he => ?_⟩
    rw [skips_bind_of_ok f h] at he
    exact (List.mem_append.mp he).elim (hx.holds e) ((hf a h).holds e)

theorem Logs.map {x : Lowering α} (hx : Logs P x) (f : α → β) : Logs P (f <$> x) := by
  rw [map_eq_pure_bind]
  exact hx.bind fun a _ => logs_pure (f a)

theorem logs_mapM {f : γ → Lowering α} {cs : List γ} (h : ∀ c ∈ cs, Logs P (f c)) :
    Logs P (cs.mapM f) := by
  induction cs with
  | nil => exact logs_pure []
  | cons c cs ih =>
    obtain ⟨hc, hcs⟩ := List.forall_mem_cons.mp h
    rw [List.mapM_cons]
    exact hc.bind fun a _ => (ih hcs).bind fun as _ => logs_pure (a :: as)

theorem logs_of_yields {x : Lowering α} {a : α} {log : Log} (h : x.Yields a log)
    (hlog : ∀ e ∈ log, P e) : Logs P x := ⟨h.skips ▸ hlog⟩

theorem logs_forM_skipAs {label : String} {ns : List Node} (h : ∀ n ∈ ns, P (.ofNode label n)) :
    Logs P (ns.forM (Node.skipAs label)) := by
  refine logs_of_yields (a := ()) (yields_forM_skipAs.mpr rfl) fun e he => ?_
  obtain ⟨n, hn, rfl⟩ := List.mem_map.mp he
  exact h n hn

end Lowering

open Lowering

/-- An entry about one of the constructs that `R` places. -/
def Skipped.IsPlaced (R : List Nat → Construct → Node → Prop) (e : Skipped) : Prop :=
  ∃ path x c, R path x c ∧ e = .ofNode x.label c

section Logs

variable {ctx : Context} {n : Node}

theorem InterfaceList.exists_handsBack {r : Rule} {c : Node} (h : c ∈ othersOf r n) :
    ∃ i clause path, n.FirstAt r i clause ∧ clause.HandsBack path c := by
  unfold othersOf at h
  split at h
  · rename_i clause hclause
    obtain ⟨item, hitem, hc⟩ := List.mem_filterMap.mp h
    obtain ⟨i, hi⟩ := Node.exists_firstAt hclause
    obtain ⟨path, hpath⟩ := (Node.mem_interfaceItems_iff.mp hitem).exists_handsBack hc
    exact ⟨i, clause, path, hi, hpath⟩
  · cases h

theorem Component.logs_ofNode :
    Logs (Skipped.IsPlaced (DeclarativeItem.Skips ⟨.component, n⟩))
      (Component.ofNode ctx n : Lowering (Component String)) := by
  apply (logs_read _).bind
  intro _ _
  apply (logs_read _).bind
  intro name _
  split
  · exact logs_pure _
  · apply (logs_read _).bind
    intro generics hgenerics
    apply (logs_read _).bind
    intro ports hports
    refine (logs_forM_skipAs fun c hc => ?_).bind fun _ _ => logs_pure _
    rw [InterfaceList.others_of_ofChild hgenerics, InterfaceList.others_of_ofChild hports] at hc
    rcases List.mem_append.mp hc with hc | hc
    · obtain ⟨i, clause, path, hi, hpath⟩ := InterfaceList.exists_handsBack hc
      exact ⟨_, _, c, .interface (.inl rfl) hi hpath, rfl⟩
    · obtain ⟨i, clause, path, hi, hpath⟩ := InterfaceList.exists_handsBack hc
      exact ⟨_, _, c, .interface (.inr rfl) hi hpath, rfl⟩

theorem DeclarativeItem.logs_lower {item : DeclarativeItem}
    (hpackage : Logs (Skipped.IsPlaced (Skips ⟨.package, item.node⟩))
      (Package.ofNode ctx item.node : Lowering (Package String))) :
    Logs (Skipped.IsPlaced item.Skips) (item.lower ctx : Lowering (List (Declaration String))) := by
  obtain ⟨role, n⟩ := item
  rw [lower]
  cases role with
  | package => exact hpackage.bind fun _ _ => logs_pure _
  | component => exact Component.logs_ofNode.bind fun _ _ => logs_pure _
  | unsupported u =>
    exact (logs_skipAs ⟨[], .item u, n, .item, rfl⟩).bind fun _ _ => logs_pure _
  | subprogram | type | subtype | constant | signal | «variable» =>
    exact (logs_read _).bind fun _ _ => logs_pure _

theorem Node.isPlaced_of_mem_headerReports {e : Skipped} (h : e ∈ n.headerReports) :
    e.IsPlaced (DeclarativeItem.Skips ⟨.package, n⟩) := by
  unfold headerReports at h
  split at h
  · cases h
  · rename_i header hheader
    obtain ⟨i, hi⟩ := exists_firstAt hheader
    rcases List.mem_append.mp h with h | h
    · obtain ⟨c, hc, rfl⟩ := Option.map_eq_some_iff.mp (Option.mem_toList.mp h)
      obtain ⟨j, hj⟩ := exists_firstAt hc
      exact ⟨_, _, c, .genericClause hi hj, rfl⟩
    · obtain ⟨c, hc, rfl⟩ := Option.map_eq_some_iff.mp (Option.mem_toList.mp h)
      obtain ⟨j, hj⟩ := exists_firstAt hc
      exact ⟨_, _, c, .genericMapAspect hi hj, rfl⟩

/-- An item of a package stands in its declarative part. -/
theorem Node.exists_itemAt {c : Node} (h : c ∈ n.packageItems) :
    ∃ (i : Nat) (part : Node) (j : Nat), n.FirstAt .packageDeclarativePart i part ∧
      part.children[j]? = some c := by
  unfold packageItems at h
  cases hpart : n.child? (.rule .packageDeclarativePart) with
  | none =>
    rw [hpart] at h
    cases h
  | some part =>
    rw [hpart] at h
    obtain ⟨i, hi⟩ := exists_firstAt hpart
    obtain ⟨j, hj⟩ := List.mem_iff_getElem?.mp h
    exact ⟨i, part, j, hi, hj⟩

theorem Package.logs_ofNode :
    Logs (Skipped.IsPlaced (DeclarativeItem.Skips ⟨.package, n⟩))
      (Package.ofNode ctx n : Lowering (Package String)) := by
  induction n using Node.packageInduction with
  | h n ih =>
    rw [ofNode]
    apply (logs_read _).bind
    intro _ _
    apply (logs_read _).bind
    intro name _
    split
    · exact logs_pure _
    · apply (logs_of_yields (a := ()) (Node.yields_skipHeader.mpr rfl) fun e =>
        Node.isPlaced_of_mem_headerReports).bind
      intro _ _
      rw [declarationsOf_eq_mapM]
      refine ((logs_mapM fun c hc => ?_).map _).bind fun ds _ => logs_pure _
      refine (DeclarativeItem.logs_lower (ih c hc)).imp fun e he => ?_
      obtain ⟨path', x, d, h, rfl⟩ := he
      obtain ⟨i, part, j, hi, hj⟩ := Node.exists_itemAt hc
      obtain ⟨path, hpath⟩ := c.exists_classifiedAt
      exact ⟨_, x, d, .inner hi hj hpath h, rfl⟩

theorem DesignFile.logs_context {root p : Node} {path : List Nat} (hpath : root.PartAt path p)
    (hcontext : p.kind.isContext = true) :
    Logs (Skipped.IsPlaced (Skips root)) (lowerPart ctx p : Lowering (List (Package String))) := by
  have hitem (hkind : p.kind = .rule .contextItem ∨ p.kind = .rule .libraryClause ∨
      p.kind = .rule .useClause) : Skipped.IsPlaced (Skips root) (.ofNode Construct.contextItem.label p) :=
    ⟨path, .contextItem, p, .contextItem hpath hkind, rfl⟩
  unfold lowerPart
  split
  · rename_i hkind
    refine (logs_forM_skipAs fun c hc => ?_).bind fun _ _ => logs_pure _
    obtain ⟨hmem, htoken⟩ := List.mem_filter.mp hc
    obtain ⟨i, hi⟩ := List.mem_iff_getElem?.mp hmem
    exact ⟨_, _, c, .clause hpath hkind hi (by simpa using htoken), rfl⟩
  · rename_i hkind
    exact (logs_skipAs (hitem (.inl hkind))).bind fun _ _ => logs_pure _
  · rename_i hkind
    exact (logs_skipAs (hitem (.inr (.inl hkind)))).bind fun _ _ => logs_pure _
  · rename_i hkind
    exact (logs_skipAs (hitem (.inr (.inr hkind)))).bind fun _ _ => logs_pure _
  · rename_i hclause hcontextItem hlibrary huse
    unfold Kind.isContext at hcontext
    split at hcontext <;> simp_all

theorem DesignFile.logs_unit {root p : Node} {path : List Nat} (hpath : root.PartAt path p)
    (hcontext : p.kind.isContext = false) :
    Logs (Skipped.IsPlaced (Skips root)) (lowerPart ctx p : Lowering (List (Package String))) := by
  obtain ⟨path', hpath'⟩ := p.unwraps_libraryUnit.exists_unitAt
  rw [Likeness.lowerPart_of_unit hcontext]
  split
  · rename_i hkind
    refine (Package.logs_ofNode.imp fun e he => ?_).bind fun _ _ => logs_pure _
    obtain ⟨path'', x, c, h, rfl⟩ := he
    exact ⟨_, x, c, .inPackage hpath hcontext hpath' hkind h, rfl⟩
  · rename_i hkind
    refine (logs_skipAs ?_).bind fun _ _ => logs_pure _
    exact ⟨_, _, _, .libraryUnit hpath hcontext hpath' hkind, rfl⟩

theorem DesignFile.logs_lowerPart {root p : Node} (hp : p ∈ root.unitParts) :
    Logs (Skipped.IsPlaced (Skips root)) (lowerPart ctx p : Lowering (List (Package String))) := by
  obtain ⟨path, hpath⟩ := Node.exists_partAt hp
  cases hcontext : p.kind.isContext with
  | true => exact logs_context hpath hcontext
  | false => exact logs_unit hpath hcontext

theorem DesignFile.logs_lower {root : Node} :
    Logs (Skipped.IsPlaced (Skips root)) (lower ctx root : Lowering (List (Package String))) := by
  apply (logs_read _).bind
  intro _ _
  exact (logs_mapM fun p hp => logs_lowerPart hp).bind fun _ _ => logs_pure _

end Logs

end VhdlLowering
