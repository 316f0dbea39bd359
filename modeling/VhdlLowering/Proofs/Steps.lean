import VhdlLowering.Proofs.Renaming
import VhdlLowering.Proofs.ReplayLowering

/-!
# Steps of a session

A step leaves its trace in the session and answers with a tree over symbols. What the answer says
once its names are looked up depends on the step alone, not on the session.
-/

namespace VhdlLowering
namespace Session

open Follower

namespace Answer

def map {ν μ : Type} (f : ν → μ) (a : Answer ν) : Answer μ :=
  Except.map (Option.map (Product.map f)) a

/-- Looked up in a table, the answer `a` says `r`; every name is found. -/
def Says (t : NameTable) (a : Answer Symbol) (r : Answer String) : Prop :=
  a.map t.resolve? = r.map some

theorem Says.map_nameOf {t : NameTable} {a : Answer Symbol} {r : Answer String}
    (h : a.Says t r) : a.map t.nameOf = r := by
  match a, r with
  | .error _, .error _ =>
    cases h
    rfl
  | .ok none, .ok none => rfl
  | .ok (some p), .ok (some q) =>
    have hp : p.map t.resolve? = q.map some := Option.some.inj (Except.ok.inj h)
    exact congrArg (fun p => Except.ok (some p)) (Product.map_nameOf hp)
  | .ok none, .ok (some _) => cases Except.ok.inj h
  | .ok (some _), .ok none => cases Except.ok.inj h
  | .error _, .ok _ => cases h
  | .ok _, .error _ => cases h

theorem Says.eq_error_iff {t : NameTable} {a : Answer Symbol} {r : Answer String} {d : Defect}
    (h : a.Says t r) : a = .error d ↔ r = .error d := by
  match a, r with
  | .error _, .error _ =>
    cases h
    simp
  | .ok _, .ok _ => simp
  | .error _, .ok _ => cases h
  | .ok _, .error _ => cases h

/-- What an answer says is unique. -/
theorem Says.eq {t : NameTable} {a : Answer Symbol} {r r' : Answer String} (h : a.Says t r)
    (h' : a.Says t r') : r = r' :=
  h.map_nameOf.symm.trans h'.map_nameOf

end Answer

namespace Step

/-- The trace that a step leaves in any session. -/
def trace : Step → List Event
  | .lower target ctx n => (target.lower ctx n : Lowering (Product String)).trace
  | .report label n => [.skip (.ofNode label n)]

/-- What a step answers in any session, over texts. -/
def meaning : Step → Answer String
  | .lower target ctx n => (target.lower ctx n : Lowering (Product String)).result.map some
  | .report _ _ => .ok none

/-- The step in a session of its own. -/
def alone (x : Step) : Answer Symbol × Session := start.step x

end Step

/-- A step leaves its trace in the session, and in every later table its answer says what the step
means. -/
theorem step_spec (s : Session) (x : Step) :
    (s.step x).2 = followAll s x.trace ∧
      ∀ T : NameTable, (s.step x).2.names.names <+: T.names → (s.step x).1.Says T x.meaning := by
  cases x with
  | report label n => exact ⟨rfl, fun _ _ => rfl⟩
  | lower target ctx n =>
    -- The run does not depend on the table, so the last names of the run serve to find it.
    have hself := Target.replays_lower (T := names (followAll s (Step.lower target ctx n).trace))
      ctx target n s List.prefix_rfl
    have hlater (T : NameTable) := Target.replays_lower (T := T) ctx target n s
    simp only [step, Step.meaning, Step.trace] at hself hlater ⊢
    cases hy : (target.lower ctx n : Lowering (Product String)).result with
    | error d =>
      rw [hy] at hself
      simp only [hself]
      exact ⟨trivial, fun _ _ => rfl⟩
    | ok q =>
      rw [hy] at hself
      obtain ⟨p, hp, -⟩ := hself
      simp only [hp]
      refine ⟨trivial, fun T hT => ?_⟩
      have hrun := hlater T hT
      rw [hy] at hrun
      obtain ⟨p', hp', hnames⟩ := hrun
      cases hp.symm.trans hp'
      exact congrArg (fun p => Except.ok (some p)) hnames

theorem log_step (s : Session) (x : Step) :
    (s.step x).2.log = s.log ++ x.trace.filterMap Event.skip? := by
  rw [(s.step_spec x).1, followAll_events]

theorem names_step (s : Session) (x : Step) :
    (s.step x).2.names = s.names.internAll (x.trace.filterMap Event.name?) := by
  rw [(s.step_spec x).1, followAll_events]

section Lower

variable {s : Session} {target : Target} {ctx : Context} {n : Node}

/-- Lowering in a session leaves what its trace leaves when it is taken over afterwards. -/
theorem step_lower_eq_after :
    (s.step (.lower target ctx n)).2 = s.after (target.lower ctx n : Lowering (Product String)) := by
  rw [after_eq_followAll]
  exact (s.step_spec (.lower target ctx n)).1

/-- A tree that was handed out says what the trace of its lowering gives. -/
theorem result_of_step {p : Product Symbol}
    (h : (s.step (.lower target ctx n)).1 = .ok (some p)) :
    ∃ q : Product String, (target.lower ctx n : Lowering (Product String)).result = .ok q ∧
      p.map (s.step (.lower target ctx n)).2.names.resolve? = q.map some := by
  have hsays := (s.step_spec (.lower target ctx n)).2 _ List.prefix_rfl
  rw [h, Answer.Says, Step.meaning] at hsays
  cases hq : (target.lower ctx n : Lowering (Product String)).result with
  | error d =>
    rw [hq] at hsays
    cases hsays
  | ok q =>
    rw [hq] at hsays
    exact ⟨q, rfl, Option.some.inj (Except.ok.inj hsays)⟩

/-- The same with what the step logs. -/
theorem yields_of_step {p : Product Symbol}
    (h : (s.step (.lower target ctx n)).1 = .ok (some p)) :
    ∃ (q : Product String) (entries : Log),
      (target.lower ctx n : Lowering (Product String)).Yields q entries ∧
      p.map (s.step (.lower target ctx n)).2.names.resolve? = q.map some ∧
      (s.step (.lower target ctx n)).2.log = s.log ++ entries := by
  obtain ⟨q, hq, hnames⟩ := result_of_step h
  exact ⟨q, _, ⟨hq, rfl⟩, hnames, log_step s _⟩

/-- Whether a tree is handed out depends on the tree alone. -/
theorem step_succeeds_iff :
    (∃ p, (s.step (.lower target ctx n)).1 = .ok (some p)) ↔
      (target.lower ctx n : Lowering (Product String)).Succeeds := by
  constructor
  · intro h
    rcases h with ⟨p, hp⟩
    obtain ⟨q, hq, -⟩ := result_of_step hp
    exact ⟨q, hq⟩
  · intro h
    rcases h with ⟨q, hq⟩
    have hsays := (s.step_spec (.lower target ctx n)).2 _ List.prefix_rfl
    rw [Answer.Says, Step.meaning, hq] at hsays
    match ha : (s.step (.lower target ctx n)).1 with
    | .ok (some p) => exact ⟨p, rfl⟩
    | .ok none =>
      rw [ha] at hsays
      cases Except.ok.inj hsays
    | .error d =>
      rw [ha] at hsays
      cases hsays

/-- Which defect a tree is refused for depends on the tree alone. -/
theorem step_fails_iff {d : Defect} :
    (s.step (.lower target ctx n)).1 = .error d ↔
      (target.lower ctx n : Lowering (Product String)).result = .error d := by
  have hanswer := (s.step_spec (.lower target ctx n)).2 _ List.prefix_rfl
  rw [hanswer.eq_error_iff, Step.meaning]
  cases (target.lower ctx n : Lowering (Product String)).result with
  | error e => simp [Except.map]
  | ok q => simp [Except.map]

end Lower

/-- Lowered in a session of its own, the tree gives `p` and logs `log`. -/
def GivesAlone (target : Target) (ctx : Context) (n : Node) (p : Product String) (log : Log) :
    Prop :=
  let alone := (Step.lower target ctx n).alone
  alone.1.Says alone.2.names (.ok (some p)) ∧ alone.2.log = log

theorem givesAlone_iff {target : Target} {ctx : Context} {n : Node} {p : Product String}
    {log : Log} :
    GivesAlone target ctx n p log ↔
      (target.lower ctx n : Lowering (Product String)).Yields p log := by
  have hanswer := (start.step_spec (.lower target ctx n)).2 _ List.prefix_rfl
  have hlog : (Step.lower target ctx n).alone.2.log =
      (target.lower ctx n : Lowering (Product String)).skips := start.log_step _
  rw [GivesAlone, hlog]
  constructor
  · intro h
    rcases h with ⟨hp, rfl⟩
    have hmeaning := hp.eq hanswer
    rw [Step.meaning] at hmeaning
    cases hq : (target.lower ctx n : Lowering (Product String)).result with
    | error d =>
      rw [hq] at hmeaning
      cases hmeaning
    | ok q =>
      rw [hq] at hmeaning
      cases hmeaning
      exact ⟨hq, rfl⟩
  · intro h
    rcases h with ⟨hp, rfl⟩
    rw [Step.meaning, hp] at hanswer
    exact ⟨hanswer, rfl⟩

theorem givesAlone_package_iff {ctx : Context} {n : Node} {q : Package String} {log : Log} :
    GivesAlone .package ctx n (.package q) log ↔
      (Package.ofNode ctx n : Lowering (Package String)).Yields q log := by
  rw [givesAlone_iff, Target.lower, Lowering.yields_map]
  simp

end Session
end VhdlLowering
