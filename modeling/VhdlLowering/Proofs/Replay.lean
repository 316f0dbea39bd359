import VhdlLowering.Proofs.NameTable
import VhdlLowering.Proofs.PackageWalk

/-!
# Sessions replay traces

Every reader runs in a session as it does with a trace: it stops at the same defect, it leaves the
session as if the trace had been replayed in it, and its symbols stand for the names of the traced
tree. A symbol keeps its name, so the table in which the symbols are looked up may be any later one;
it is fixed throughout, and what is compared is the two results after the look-up.
-/

namespace VhdlLowering

/-- A state that takes over what is traced, one event at a time. -/
class Follower (τ : outParam Type) (σ : Type) where
  follow : σ → τ → σ
  names : σ → NameTable
  prefix_follow : ∀ s e, (names s).names <+: (names (follow s e)).names

namespace Follower

instance : Follower String NameTable where
  follow t s := (t.intern s).2
  names := id
  prefix_follow := NameTable.prefix_intern

instance : Follower Event Session where
  follow s
    | .name x => { s with names := (s.names.intern x).2 }
    | .skip k => { s with log := s.log ++ [k] }
  names := Session.names
  prefix_follow s e := by
    cases e with
    | name x => exact s.names.prefix_intern x
    | skip k => exact List.prefix_rfl

variable {τ σ : Type} [Follower τ σ]

/-- The state after a trace. -/
def followAll (s : σ) (trace : List τ) : σ := trace.foldl follow s

theorem followAll_append (s : σ) (xs ys : List τ) :
    followAll s (xs ++ ys) = followAll (followAll s xs) ys :=
  List.foldl_append

theorem prefix_followAll (s : σ) (trace : List τ) :
    (names s).names <+: (names (followAll s trace)).names := by
  induction trace generalizing s with
  | nil => exact List.prefix_rfl
  | cons e trace ih => exact (prefix_follow s e).trans (ih _)

theorem followAll_nameEvents (s : Session) (ss : List String) :
    followAll s (ss.map Event.name) = { s with names := s.names.internAll ss } := by
  induction ss generalizing s with
  | nil => rfl
  | cons x ss ih => exact ih _

theorem followAll_events (s : Session) (es : List Event) :
    followAll s es =
      ⟨s.names.internAll (es.filterMap Event.name?), s.log ++ es.filterMap Event.skip?⟩ := by
  induction es generalizing s with
  | nil => simp [followAll]
  | cons e es ih =>
    change followAll (follow s e) es = _
    rw [ih]
    cases e with
    | name x => rfl
    | skip k =>
      have hname : Event.name? (.skip k) = none := rfl
      rw [List.filterMap_cons_none hname]
      simp [follow, Event.skip?]

/-- Taking over the outcome of a traced lowering is replaying its trace. -/
theorem after_eq_followAll {α : Type} (s : Session) (x : Lowering α) :
    s.after x = followAll s x.trace :=
  (followAll_events s x.trace).symm

end Follower

open Follower

variable {τ σ α β γ δ : Type} [Follower τ σ]

/-- `x` runs from every state as `y` is traced, and `R` holds between their values. Only states are
looked at whose names stay in front of the table `T` to the end. -/
def Replays (T : NameTable) (R : α → β → Prop) (x : EStateM Defect σ α) (y : Traced τ β) : Prop :=
  ∀ s : σ, (names (followAll s y.trace)).names <+: T.names →
    match y.result with
    | .ok b => ∃ a, x.run s = .ok a (followAll s y.trace) ∧ R a b
    | .error d => x.run s = .error d (followAll s y.trace)

namespace Replays

variable {T : NameTable} {R : α → β → Prop} {S : γ → δ → Prop}

theorem pure {a : α} {b : β} (h : R a b) :
    Replays T R (Pure.pure a : EStateM Defect σ α) (Pure.pure b : Traced τ β) :=
  fun _ _ => ⟨a, rfl, h⟩

theorem bind {x : EStateM Defect σ α} {y : Traced τ β} {f : α → EStateM Defect σ γ}
    {g : β → Traced τ δ} (hx : Replays T R x y) (hf : ∀ a b, R a b → Replays T S (f a) (g b)) :
    Replays T S (x >>= f) (y >>= g) := by
  intro s hT
  cases hy : y.result with
  | error d =>
    rw [Traced.bind_of_error g hy] at hT ⊢
    have hrun := hx s hT
    rw [hy] at hrun
    exact congrArg (fun r => EStateM.bind (fun _ => r) f s) hrun
  | ok b =>
    rw [Traced.bind_of_ok g hy, followAll_append] at hT
    have hrun := hx s ((prefix_followAll _ _).trans hT)
    rw [hy] at hrun
    obtain ⟨a, ha, hab⟩ := hrun
    have hrest := hf a b hab (followAll s y.trace) hT
    have hstep : (x >>= f).run s = (f a).run (followAll s y.trace) :=
      congrArg (fun r => EStateM.bind (fun _ => r) f s) ha
    rw [Traced.bind_of_ok g hy, hstep, followAll_append]
    exact hrest

theorem map {x : EStateM Defect σ α} {y : Traced τ β} {f : α → γ} {g : β → δ}
    (hx : Replays T R x y) (h : ∀ a b, R a b → S (f a) (g b)) :
    Replays T S (f <$> x) (g <$> y) := by
  rw [map_eq_pure_bind, map_eq_pure_bind]
  exact hx.bind fun a b hab => pure (h a b hab)

/-- Lists of steps, compared after a look-up in each of their values. -/
theorem mapM {ι : Type} {f : ι → EStateM Defect σ α} {g : ι → Traced τ β} {φ : α → γ} {ψ : β → γ}
    {cs : List ι} (h : ∀ c ∈ cs, Replays T (fun a b => φ a = ψ b) (f c) (g c)) :
    Replays T (fun as bs => as.map φ = bs.map ψ) (cs.mapM f) (cs.mapM g) := by
  induction cs with
  | nil => exact pure rfl
  | cons c cs ih =>
    rw [List.mapM_cons, List.mapM_cons]
    refine (h c (by simp)).bind fun a b hab => ?_
    refine (ih fun d hd => h d (by simp [hd])).bind fun as bs hs => pure ?_
    simp [hab, hs]

end Replays
end VhdlLowering
