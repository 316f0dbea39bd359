import VhdlLowering.Builder
import VhdlLowering.Proofs.ReplayLowering
import VhdlLowering.Proofs.Resolution

/-!
# Building is atomic

An item that is given to a package appends at least one declaration, is skipped, or leaves the
package alone. What came of it depends on the item only, so the items that were refused might as
well not have been given: without them the package declares the same, shown by the texts of its
names.
-/

namespace VhdlLowering

open Follower

/-- The log and the table of a session grow at their ends. -/
structure Session.Grows (s t : Session) : Prop where
  log : s.log <+: t.log
  names : s.names.names <+: t.names.names

theorem Session.Grows.refl (s : Session) : s.Grows s := ⟨List.prefix_rfl, List.prefix_rfl⟩

theorem Session.Grows.trans {s t u : Session} (h : s.Grows t) (h' : t.Grows u) : s.Grows u :=
  ⟨h.log.trans h'.log, h.names.trans h'.names⟩

theorem Session.grows_followAll (s : Session) (trace : List Event) :
    s.Grows (followAll s trace) := by
  refine ⟨?_, prefix_followAll s trace⟩
  rw [followAll_events]
  exact List.prefix_append _ _

/-- Looked up in a table, the package declares what the other one declares; every name is found. -/
def Package.ShownBy (T : NameTable) (p : Package Symbol) (q : Package String) : Prop :=
  p.declarations.map (Declaration.map T.resolve?) = q.declarations.map (Declaration.map some)

theorem Package.shownBy_of_known {t T : NameTable} {p : Package Symbol}
    (hp : ∀ d ∈ p.declarations, ∀ x ∈ d.names, (t.resolve? x).isSome) (hT : t.names <+: T.names) :
    p.ShownBy T (map t.nameOf p) := by
  rw [ShownBy, map, List.map_map]
  apply List.map_congr_left
  intro d hd
  rw [Function.comp_apply, Declaration.map_map]
  apply Declaration.map_congr
  intro x hx
  exact NameTable.resolve?_of_prefix hT (NameTable.resolve?_eq_some_nameOf (hp d hd x hx))

namespace DeclarativeItem

variable {ctx : Context} {item : DeclarativeItem}

/-- What a supported item declares is not nothing. -/
theorem result_lower_ne_nil (hrole : ∀ u, item.role ≠ .unsupported u)
    {ds : List (Declaration String)}
    (h : (item.lower ctx : Lowering (List (Declaration String))).result = .ok ds) : ds ≠ [] := by
  have hobjects (kind : ObjectKind) (declare : Object String → Declaration String)
      (h : (do return (← read (Object.ofNode ctx.file kind item.node)).map declare :
        Lowering (List (Declaration String))).result = .ok ds) : ds ≠ [] := by
    obtain ⟨os, hos, hds⟩ := Traced.result_bind_eq_ok.mp h
    cases hds
    exact fun hnil => (Object.names_of_result hos).1 (List.map_eq_nil_iff.mp hnil)
  rw [lower] at h
  cases hr : item.role with
  | unsupported u => exact absurd hr (hrole u)
  | constant =>
    rw [hr] at h
    exact hobjects .constant .constant h
  | signal =>
    rw [hr] at h
    exact hobjects .signal .signal h
  | «variable» =>
    rw [hr] at h
    exact hobjects .variable .variable h
  | subprogram | package | type | subtype | component =>
    rw [hr] at h
    obtain ⟨d, -, hds⟩ := Traced.result_bind_eq_ok.mp h
    cases hds
    exact List.cons_ne_nil _ _

theorem run_lower_unsupported {u : Unsupported} (hrole : item.role = .unsupported u) (s : Session) :
    (item.lower ctx : SessionM (List (Declaration Symbol))).run s =
      .ok [] { s with log := s.log ++ [.ofNode u.label item.node] } := by
  rw [lower, hrole]
  rfl

/-- How it is told that an item declares so many things. -/
def accepted (item : DeclarativeItem) (count : Nat) : Accepted :=
  match item.role with
  | .unsupported _ => .skipped
  | _ => .appended count

theorem accepted_of_supported (hrole : ∀ u, item.role ≠ .unsupported u) (count : Nat) :
    item.accepted count = .appended count := by
  unfold accepted
  split
  · rename_i u hu
    exact absurd hu (hrole u)
  · rfl

/-- What comes of giving an item to any package in any session. -/
def outcome (ctx : Context) (item : DeclarativeItem) : Builder.Outcome :=
  (item.lower ctx : Lowering (List (Declaration String))).result.map fun ds =>
    item.accepted ds.length

variable {s t : Session}

theorem run_accept_of_ok {p : Package Symbol} {ds : List (Declaration Symbol)}
    (h : (item.lower ctx : SessionM (List (Declaration Symbol))).run s = .ok ds t) :
    (p.accept ctx item : SessionM (Accepted × Package Symbol)).run s =
      .ok (item.accepted ds.length, { p with declarations := p.declarations ++ ds }) t := by
  rw [Package.accept, EStateM.run_bind, h]
  rfl

theorem run_accept_of_error {p : Package Symbol} {d : Defect}
    (h : (item.lower ctx : SessionM (List (Declaration Symbol))).run s = .error d t) :
    (p.accept ctx item : SessionM (Accepted × Package Symbol)).run s = .error d t := by
  rw [Package.accept, EStateM.run_bind, h]

theorem afterItem_eq (p : Package String) :
    p.afterItem ctx item =
      match (item.lower ctx : Lowering (List (Declaration String))).result with
      | .ok ds => { p with declarations := p.declarations ++ ds }
      | .error _ => p := by
  rw [Package.afterItem, Package.accept]
  cases h : (item.lower ctx : Lowering (List (Declaration String))).result with
  | error d => rw [Traced.bind_of_error _ h]
  | ok ds =>
    rw [Traced.bind_of_ok _ h]
    rfl

theorem afterItem_of_refused {p : Package String} {d : Defect} (h : item.outcome ctx = .error d) :
    p.afterItem ctx item = p := by
  rw [afterItem_eq]
  cases hx : (item.lower ctx : Lowering (List (Declaration String))).result with
  | error e => rfl
  | ok ds =>
    rw [outcome, hx] at h
    cases h

end DeclarativeItem

namespace Builder

variable {ctx : Context} {item : DeclarativeItem} {b : Builder}

theorem run_inSession {α : Type} (x : SessionM α) (b : Builder) :
    (inSession x).run b =
      match x.run b.session with
      | .ok a s => .ok a { b with session := s }
      | .error d s => .error d { b with session := s } := rfl

theorem give_of_ok {ds : List (Declaration Symbol)} {s : Session}
    (h : (item.lower ctx : SessionM (List (Declaration Symbol))).run b.session = .ok ds s) :
    b.give ctx item = (.ok (item.accepted ds.length),
      ⟨s, { b.package with declarations := b.package.declarations ++ ds }⟩) := by
  have hrun := item.run_accept_of_ok (p := b.package) h
  simp only [give, accept, EStateM.run_bind, EStateM.run_get, run_inSession, hrun]
  rfl

theorem give_of_error {d : Defect} {s : Session}
    (h : (item.lower ctx : SessionM (List (Declaration Symbol))).run b.session = .error d s) :
    b.give ctx item = (.error d, ⟨s, b.package⟩) := by
  have hrun := item.run_accept_of_error (p := b.package) h
  simp only [give, accept, EStateM.run_bind, EStateM.run_get, run_inSession, hrun]

/-- What giving an item to a builder may come to: at least one declaration is appended, or there is
one more entry in the log and nothing else, or the item is refused and the package is as it was. -/
inductive Takes (b : Builder) (item : DeclarativeItem) : Outcome → Builder → Prop
  | appended {ds : List (Declaration Symbol)} {s : Session} (hds : 1 ≤ ds.length)
      (hs : b.session.Grows s) :
      Takes b item (.ok (.appended ds.length))
        ⟨s, { b.package with declarations := b.package.declarations ++ ds }⟩
  | skipped {u : Unsupported} (hrole : item.role = .unsupported u) :
      Takes b item (.ok .skipped)
        ⟨{ b.session with log := b.session.log ++ [.ofNode u.label item.node] }, b.package⟩
  | refused {d : Defect} {s : Session} (hs : b.session.Grows s) :
      Takes b item (.error d) ⟨s, b.package⟩

theorem Takes.grows {o : Outcome} {next : Builder} (h : b.Takes item o next) :
    b.session.Grows next.session := by
  cases h with
  | appended _ hs => exact hs
  | skipped => exact ⟨List.prefix_append _ _, List.prefix_rfl⟩
  | refused hs => exact hs

/-- The number of declarations that were appended. -/
def count : Outcome → Nat
  | .ok (.appended n) => n
  | .ok .skipped | .error _ => 0

/-- The number of declarations that were appended altogether. -/
def total : List Outcome → Nat
  | [] => 0
  | o :: os => count o + total os

theorem Takes.length {o : Outcome} {next : Builder} (h : b.Takes item o next) :
    next.package.declarations.length = b.package.declarations.length + count o := by
  cases h with
  | appended => exact List.length_append
  | skipped => rfl
  | refused => rfl

/-- An item is taken or refused by a builder as its trace says, and what it declares is shown in
every later table by what it declares over texts. -/
theorem give_cases (ctx : Context) (b : Builder) (item : DeclarativeItem) :
    let x : Lowering (List (Declaration String)) := item.lower ctx
    let s := followAll b.session x.trace
    (∃ qs ds, x.result = .ok qs ∧ ds.length = qs.length ∧
      b.give ctx item = (.ok (item.accepted qs.length),
        ⟨s, { b.package with declarations := b.package.declarations ++ ds }⟩) ∧
      ∀ T : NameTable, s.names.names <+: T.names →
        ds.map (Declaration.map T.resolve?) = qs.map (Declaration.map some)) ∨
    ∃ d, x.result = .error d ∧ b.give ctx item = (.error d, ⟨s, b.package⟩) := by
  intro x s
  have hlater (T : NameTable) :=
    item.replays_lower (T := T) ctx (Package.replays_ofNode ctx item.node) b.session
  -- The run does not depend on the table, so the last names of the run serve to find it.
  have hself := hlater s.names List.prefix_rfl
  cases hx : x.result with
  | error d =>
    rw [hx] at hself
    exact .inr ⟨d, rfl, give_of_error hself⟩
  | ok qs =>
    rw [hx] at hself
    obtain ⟨ds, hds, hshown⟩ := hself
    have hlength : ds.length = qs.length := by simpa using congrArg List.length hshown
    refine .inl ⟨qs, ds, rfl, hlength, hlength ▸ give_of_ok hds, fun T hT => ?_⟩
    have hrun := hlater T hT
    rw [hx] at hrun
    obtain ⟨ds', hds', hshown'⟩ := hrun
    cases hds.symm.trans hds'
    exact hshown'

theorem give_takes (ctx : Context) (b : Builder) (item : DeclarativeItem) :
    b.Takes item (b.give ctx item).1 (b.give ctx item).2 := by
  by_cases hrole : ∃ u, item.role = .unsupported u
  · obtain ⟨u, hu⟩ := hrole
    have haccepted : item.accepted 0 = .skipped := by rw [DeclarativeItem.accepted, hu]
    rw [give_of_ok (item.run_lower_unsupported hu b.session), List.length_nil, haccepted,
      List.append_nil]
    exact .skipped hu
  · have hsupported : ∀ u, item.role ≠ .unsupported u := fun u hu => hrole ⟨u, hu⟩
    rcases b.give_cases ctx item with ⟨qs, ds, hx, hlength, hgive, -⟩ | ⟨d, -, hgive⟩
    · have hne : qs ≠ [] := item.result_lower_ne_nil hsupported hx
      rw [hgive, item.accepted_of_supported hsupported, ← hlength]
      exact .appended (hlength ▸ List.length_pos_of_ne_nil hne) (b.session.grows_followAll _)
    · rw [hgive]
      exact .refused (b.session.grows_followAll _)

/-- What comes of an item does not depend on the builder. -/
theorem give_outcome (ctx : Context) (b : Builder) (item : DeclarativeItem) :
    (b.give ctx item).1 = item.outcome ctx := by
  rw [DeclarativeItem.outcome]
  rcases b.give_cases ctx item with ⟨qs, ds, hx, -, hgive, -⟩ | ⟨d, hx, hgive⟩
  · rw [hgive, hx]
    rfl
  · rw [hgive, hx]
    rfl

theorem shownBy_give {T : NameTable} {q : Package String} (hq : b.package.ShownBy T q)
    (hT : (b.give ctx item).2.session.names.names <+: T.names) :
    (b.give ctx item).2.package.ShownBy T (q.afterItem ctx item) := by
  rw [item.afterItem_eq]
  rcases b.give_cases ctx item with ⟨qs, ds, hx, -, hgive, hshown⟩ | ⟨d, hx, hgive⟩
  · rw [hgive] at hT ⊢
    rw [Package.ShownBy] at hq ⊢
    simp only [hx, List.map_append, hq, hshown T hT]
  · rw [hgive, hx]
    exact hq

theorem giveAll_cons (ctx : Context) (b : Builder) (item : DeclarativeItem)
    (items : List DeclarativeItem) :
    b.giveAll ctx (item :: items) =
      ((b.give ctx item).1 :: ((b.give ctx item).2.giveAll ctx items).1,
        ((b.give ctx item).2.giveAll ctx items).2) := rfl

theorem giveAll_append (ctx : Context) (b : Builder) (items rest : List DeclarativeItem) :
    b.giveAll ctx (items ++ rest) =
      ((b.giveAll ctx items).1 ++ ((b.giveAll ctx items).2.giveAll ctx rest).1,
        ((b.giveAll ctx items).2.giveAll ctx rest).2) := by
  induction items generalizing b with
  | nil => rfl
  | cons item items ih => simp only [List.cons_append, giveAll_cons, ih]

theorem giveAll_outcomes (ctx : Context) (b : Builder) (items : List DeclarativeItem) :
    (b.giveAll ctx items).1 = items.map (DeclarativeItem.outcome ctx) := by
  induction items generalizing b with
  | nil => rfl
  | cons item items ih => rw [giveAll_cons, ih, give_outcome, List.map_cons]

theorem giveAll_grows (ctx : Context) (b : Builder) (items : List DeclarativeItem) :
    b.session.Grows (b.giveAll ctx items).2.session := by
  induction items generalizing b with
  | nil => exact .refl _
  | cons item items ih => exact (b.give_takes ctx item).grows.trans (ih _)

theorem length_giveAll (ctx : Context) (b : Builder) (items : List DeclarativeItem) :
    (b.giveAll ctx items).2.package.declarations.length =
      b.package.declarations.length + total (b.giveAll ctx items).1 := by
  induction items generalizing b with
  | nil => rfl
  | cons item items ih =>
    rw [giveAll_cons, ih, (b.give_takes ctx item).length, total, Nat.add_assoc]

theorem shownBy_giveAll {T : NameTable} {items : List DeclarativeItem} {q : Package String}
    (hq : b.package.ShownBy T q) (hT : (b.giveAll ctx items).2.session.names.names <+: T.names) :
    (b.giveAll ctx items).2.package.ShownBy T (items.foldl (Package.afterItem ctx) q) := by
  induction items generalizing b q with
  | nil => exact hq
  | cons item items ih =>
    have hrest := (giveAll_grows ctx (b.give ctx item).2 items).names
    exact ih (shownBy_give hq (hrest.trans hT)) hT

/-- A refused item is as good as no item. -/
theorem foldl_afterItem_filter (items : List DeclarativeItem) (q : Package String) :
    (items.filter fun item => (item.outcome ctx).isOk).foldl (Package.afterItem ctx) q =
      items.foldl (Package.afterItem ctx) q := by
  induction items generalizing q with
  | nil => rfl
  | cons item items ih =>
    rw [List.filter_cons, List.foldl_cons, ← ih]
    cases hitem : item.outcome ctx with
    | ok a => rfl
    | error d =>
      rw [item.afterItem_of_refused hitem]
      rfl

/-- The items that were not refused. -/
theorem kept_eq_filter (ctx : Context) (b : Builder) (items : List DeclarativeItem) :
    ((items.zip (b.giveAll ctx items).1).filter fun x => x.2.isOk).map Prod.fst =
      items.filter fun item => (item.outcome ctx).isOk := by
  rw [giveAll_outcomes]
  induction items with
  | nil => rfl
  | cons item items ih =>
    rw [List.map_cons, List.zip_cons_cons, List.filter_cons, List.filter_cons, ← ih]
    split
    · rfl
    · rfl

/-- Each item of a run appends something, is skipped or is refused, whatever was refused before. The
length of the package is the sum of what was appended, the session grows, and the items that were
not refused come to the same without the others. -/
theorem giveAll_atomic (ctx : Context) (b : Builder) (items : List DeclarativeItem) :
    let outcomes := (b.giveAll ctx items).1
    let last := (b.giveAll ctx items).2
    let kept := ((items.zip outcomes).filter fun x => x.2.isOk).map Prod.fst
    let again := b.giveAll ctx kept
    outcomes.length = items.length ∧
    (∀ i : Fin items.length,
      let now := (b.giveAll ctx (items.take i)).2
      let next := (b.giveAll ctx (items.take (i + 1))).2
      ∃ outcome, outcomes[i.val]? = some outcome ∧ now.Takes items[i] outcome next) ∧
    last.package.declarations.length = b.package.declarations.length + total outcomes ∧
    b.session.Grows last.session ∧
    again.1 = outcomes.filter Except.isOk ∧
    ((∀ d ∈ b.package.declarations, ∀ x ∈ d.names, (b.session.names.resolve? x).isSome) →
      ∃ q : Package String, last.package.ShownBy last.session.names q ∧
        again.2.package.ShownBy again.2.session.names q) := by
  intro outcomes last kept again
  have hkept : kept = items.filter fun item => (item.outcome ctx).isOk := kept_eq_filter ctx b items
  refine ⟨?_, fun i => ?_, length_giveAll ctx b items, giveAll_grows ctx b items, ?_, fun hb => ?_⟩
  · simp only [outcomes, giveAll_outcomes, List.length_map]
  · intro now next
    have hnext : next = (now.give ctx items[i]).2 := by
      have htake : items.take (i + 1) = items.take i ++ [items[i]] :=
        List.take_succ_eq_append_getElem i.isLt
      simp only [next, htake, giveAll_append]
      rfl
    refine ⟨(now.give ctx items[i]).1, ?_, hnext ▸ give_takes ctx now items[i]⟩
    rw [give_outcome]
    simp [outcomes, giveAll_outcomes]
  · simp only [again, outcomes, giveAll_outcomes, hkept, List.filter_map]
    rfl
  · have hgrows := (giveAll_grows ctx b items).names
    have hgrows' := (giveAll_grows ctx b kept).names
    refine ⟨items.foldl (Package.afterItem ctx) (Package.map b.session.names.nameOf b.package),
      shownBy_giveAll (Package.shownBy_of_known hb hgrows) List.prefix_rfl, ?_⟩
    rw [← foldl_afterItem_filter, ← hkept]
    exact shownBy_giveAll (Package.shownBy_of_known hb hgrows') List.prefix_rfl

/-- Two constants, a package whose second constant has no type, a use clause, and a variable. -/
def mixedItems : List DeclarativeItem :=
  let ident (s : String) : Node := .leaf (.rule .identifier) ⟨0, 1⟩ s
  let bit : Node := .leaf (.rule .subtypeIndication) ⟨1, 2⟩ "bit"
  let constants : Node := .branch (.rule .constantDeclaration) ⟨2, 5⟩
    [.branch (.rule .identifierList) ⟨2, 3⟩ [ident "a", ident "b"], bit]
  let untyped : Node := .branch (.rule .constantDeclaration) ⟨8, 9⟩ [ident "d"]
  let inner : Node := .branch (.rule .packageDeclaration) ⟨6, 10⟩
    [ident "q", .branch (.rule .packageDeclarativePart) ⟨7, 9⟩ [constants, untyped]]
  [.classify constants, .classify inner, .classify (.leaf (.rule .useClause) ⟨10, 11⟩ "use"),
    .classify (.branch (.rule .variableDeclaration) ⟨12, 14⟩ [ident "v", bit])]

/-- The items are given to a package that declares something by then. -/
theorem mixedItems_given :
    let ctx : Context := ⟨⟨0⟩, false⟩
    let b := ((start "p" ⟨⟨0⟩, ⟨0, 15⟩⟩).giveAll ctx (mixedItems.take 1)).2
    let outcomes := (b.giveAll ctx mixedItems).1
    let last := (b.giveAll ctx mixedItems).2
    let kept := ((mixedItems.zip outcomes).filter fun x => x.2.isOk).map Prod.fst
    let again := b.giveAll ctx kept
    outcomes.map count = [2, 0, 0, 1] ∧ outcomes.map Except.isOk = [true, false, true, true] ∧
    (∀ d ∈ b.package.declarations, ∀ x ∈ d.names, (b.session.names.resolve? x).isSome) ∧
    last.package.declarations.length = 5 ∧ again.1 = outcomes.filter Except.isOk ∧
    ∃ q : Package String, last.package.ShownBy last.session.names q ∧
      again.2.package.ShownBy again.2.session.names q := by
  intro ctx b outcomes last kept again
  have hknown : ∀ d ∈ b.package.declarations, ∀ x ∈ d.names,
      (b.session.names.resolve? x).isSome := by
    decide +kernel
  obtain ⟨-, -, hlength, -, hagain, hshown⟩ := giveAll_atomic ctx b mixedItems
  have hbefore : b.package.declarations.length = 2 := by decide +kernel
  have htotal : total outcomes = 3 := by decide +kernel
  refine ⟨by decide +kernel, by decide +kernel, hknown, ?_, hagain, hshown hknown⟩
  rw [hlength, hbefore, htotal]

end Builder

end VhdlLowering
