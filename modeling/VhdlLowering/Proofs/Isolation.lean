import VhdlLowering.Ast.Outline
import VhdlLowering.Proofs.Steps

/-!
# Steps of a session do not disturb each other

A step answers in a session what it answers alone, whatever the steps before it did and whether they
failed. The log and the name table of the session are put together from those of the steps run
alone, and an answer keeps its meaning however long the session goes on.
-/

namespace VhdlLowering
namespace Session

open Follower

/-- The outlines of the packages that were handed out. -/
def Answer.outlines (a : Answer String) : List String :=
  match a with
  | .ok (some (.package p)) => [Package.outline p]
  | .ok (some (.packages ps)) => ps.map Package.outline
  | .ok (some (.component _)) | .ok none | .error _ => []

theorem run_append (s : Session) (xs ys : List Step) :
    s.run (xs ++ ys) = ((s.run xs).1 ++ ((s.run xs).2.run ys).1, ((s.run xs).2.run ys).2) := by
  induction xs generalizing s with
  | nil => rfl
  | cons x xs ih => simp [run, ih]

theorem length_run (s : Session) (xs : List Step) : (s.run xs).1.length = xs.length := by
  induction xs generalizing s with
  | nil => rfl
  | cons x xs ih => simp [run, ih]

theorem run_eq_followAll (s : Session) (xs : List Step) :
    (s.run xs).2 = followAll s (xs.flatMap Step.trace) := by
  induction xs generalizing s with
  | nil => rfl
  | cons x xs ih =>
    rw [List.flatMap_cons, followAll_append, ← (s.step_spec x).1]
    exact ih _

theorem prefix_run (s : Session) (xs : List Step) :
    s.names.names <+: (s.run xs).2.names.names := by
  rw [run_eq_followAll]
  exact prefix_followAll s _

/-- Names interned step by step in tables of their own may be interned again in one table. -/
theorem internAll_flatMap_alone (t : NameTable) (xs : List Step) :
    t.internAll (xs.flatMap fun x => x.alone.2.names.names) =
      t.internAll ((xs.flatMap Step.trace).filterMap Event.name?) := by
  induction xs generalizing t with
  | nil => rfl
  | cons x xs ih =>
    have hx : x.alone.2.names = NameTable.empty.internAll (x.trace.filterMap Event.name?) := by
      rw [Step.alone, (start.step_spec x).1, followAll_events]
      rfl
    rw [List.flatMap_cons, List.flatMap_cons, List.filterMap_append, NameTable.internAll_append,
      NameTable.internAll_append, hx, NameTable.internAll_names_internAll, ih]
    rfl

/-- Between the steps `ys` and the steps `zs`, a step answers what it answers alone, and its answer
says the same when all is done. -/
theorem step_isolated (ys : List Step) (x : Step) (zs : List Step) :
    let answer := ((start.run ys).2.step x).1
    let last := (start.run (ys ++ x :: zs)).2
    (start.run (ys ++ x :: zs)).1[ys.length]? = some answer ∧
    x.alone.1.Says x.alone.2.names x.meaning ∧
    answer.Says ((start.run ys).2.step x).2.names x.meaning ∧
    answer.Says last.names x.meaning := by
  have hsays := ((start.run ys).2.step_spec x).2
  have hrun : start.run (ys ++ x :: zs) =
      ((start.run ys).1 ++ ((start.run ys).2.step x).1 :: (((start.run ys).2.step x).2.run zs).1,
        (((start.run ys).2.step x).2.run zs).2) := run_append _ _ _
  refine ⟨?_, (start.step_spec x).2 _ List.prefix_rfl, hsays _ List.prefix_rfl, hsays _ ?_⟩
  · rw [hrun, ← length_run start ys, List.getElem?_append_right (Nat.le_refl _), Nat.sub_self]
    rfl
  · rw [hrun]
    exact prefix_run _ zs

theorem log_run (xs : List Step) :
    (start.run xs).2.log = xs.flatMap fun x => x.alone.2.log := by
  have hlog (x : Step) : x.alone.2.log = x.trace.filterMap Event.skip? := by
    rw [Step.alone, (start.step_spec x).1, followAll_events]
    exact List.nil_append _
  rw [run_eq_followAll, followAll_events]
  simp only [hlog, List.filterMap_flatMap]
  rfl

theorem names_run (xs : List Step) :
    (start.run xs).2.names.names = (xs.flatMap fun x => x.alone.2.names.names).eraseDups := by
  rw [run_eq_followAll, followAll_events, ← NameTable.names_internAll_empty,
    internAll_flatMap_alone]
  rfl

/-- In a session every step answers as it does alone, then and ever after; the log is that of the
steps alone in order, and the table holds the names of the steps alone at their first occurrence. -/
theorem run_isolated (xs : List Step) :
    (∀ i : Fin xs.length,
      let answer := ((start.run (xs.take i)).2.step xs[i]).1
      let after := ((start.run (xs.take i)).2.step xs[i]).2
      let last := (start.run xs).2
      let alone := xs[i].alone
      (start.run xs).1[i.val]? = some answer ∧
      ∃ r : Answer String,
        alone.1.Says alone.2.names r ∧ answer.Says after.names r ∧ answer.Says last.names r ∧
        (alone.1.map alone.2.names.nameOf).outlines = r.outlines ∧
        (answer.map after.names.nameOf).outlines = r.outlines ∧
        (answer.map last.names.nameOf).outlines = r.outlines) ∧
    (start.run xs).2.log = xs.flatMap (fun x => x.alone.2.log) ∧
    (start.run xs).2.names.names = (xs.flatMap fun x => x.alone.2.names.names).eraseDups := by
  refine ⟨fun i => ?_, log_run xs, names_run xs⟩
  have hsplit : xs.take i ++ xs[i] :: xs.drop (i + 1) = xs := by
    rw [Fin.getElem_fin, List.getElem_cons_drop, List.take_append_drop]
  have hlength : (xs.take i).length = i := by simp
  have h := step_isolated (xs.take i) xs[i] (xs.drop (i + 1))
  rw [hsplit, hlength] at h
  obtain ⟨hanswer, halone, hnow, hlater⟩ := h
  exact ⟨hanswer, xs[i].meaning, halone, hnow, hlater, congrArg Answer.outlines halone.map_nameOf,
    congrArg Answer.outlines hnow.map_nameOf, congrArg Answer.outlines hlater.map_nameOf⟩

end Session
end VhdlLowering
