import VhdlLowering.Lowering.DesignFile
import Mathlib.Data.List.Forall2

/-!
# Traced steps

What a sequence of traced steps gives is what its steps give, in order, and it succeeds if all of
them do. Reading leaves names only, so the log of a scope holds nothing but what was skipped.
-/

namespace VhdlLowering

namespace Traced

variable {τ α β : Type}

theorem result_bind_eq_ok {x : Traced τ α} {f : α → Traced τ β} {b : β} :
    (x >>= f).result = .ok b ↔ ∃ a, x.result = .ok a ∧ (f a).result = .ok b := by
  cases h : x.result with
  | error d => simp [bind_of_error f h]
  | ok a => simp [bind_of_ok f h]

theorem trace_bind_of_ok {x : Traced τ α} {a : α} (f : α → Traced τ β) (h : x.result = .ok a) :
    (x >>= f).trace = x.trace ++ (f a).trace := by
  rw [bind_of_ok f h]

theorem result_mapM_eq_ok {γ : Type} {f : γ → Traced τ α} {cs : List γ} {as : List α} :
    (cs.mapM f).result = .ok as ↔ List.Forall₂ (fun c a => (f c).result = .ok a) cs as := by
  induction cs generalizing as with
  | nil => simp [eq_comm]
  | cons c cs ih =>
    rw [List.mapM_cons, result_bind_eq_ok, List.forall₂_cons_left_iff]
    constructor
    · intro h
      rcases h with ⟨a, ha, hrest⟩
      obtain ⟨as, has, hcons⟩ := result_bind_eq_ok.mp hrest
      cases hcons
      exact ⟨a, as, ha, ih.mp has, rfl⟩
    · intro h
      rcases h with ⟨a, as, ha, has, rfl⟩
      exact ⟨a, ha, result_bind_eq_ok.mpr ⟨as, ih.mpr has, rfl⟩⟩

theorem result_bind_eq_error {x : Traced τ α} {f : α → Traced τ β} {d : Defect} :
    (x >>= f).result = .error d ↔
      x.result = .error d ∨ ∃ a, x.result = .ok a ∧ (f a).result = .error d := by
  cases h : x.result with
  | error e => simp [bind_of_error f h]
  | ok a => simp [bind_of_ok f h]

theorem result_map_eq_error {x : Traced τ α} {f : α → β} {d : Defect} :
    (f <$> x).result = .error d ↔ x.result = .error d := by
  rw [map_eq_pure_bind, result_bind_eq_error]
  simp

/-- A traced computation without a defect. -/
def Succeeds (x : Traced τ α) : Prop := ∃ a, x.result = .ok a

instance (x : Traced τ α) : Decidable x.Succeeds :=
  match h : x.result with
  | .ok a => isTrue ⟨a, h⟩
  | .error _ => isFalse (by simp [Succeeds, h])

@[simp] theorem succeeds_pure (a : α) : (pure a : Traced τ α).Succeeds := ⟨a, rfl⟩

@[simp] theorem not_succeeds_fail (d : Defect) : ¬(fail d : Traced τ α).Succeeds := by
  intro h
  rcases h with ⟨a, h⟩
  cases h

theorem succeeds_bind {x : Traced τ α} {f : α → Traced τ β} :
    (x >>= f).Succeeds ↔ ∃ a, x.result = .ok a ∧ (f a).Succeeds := by
  constructor
  · intro h
    rcases h with ⟨b, h⟩
    obtain ⟨a, ha, hb⟩ := result_bind_eq_ok.mp h
    exact ⟨a, ha, b, hb⟩
  · intro h
    rcases h with ⟨a, ha, b, hb⟩
    exact ⟨b, result_bind_eq_ok.mpr ⟨a, ha, hb⟩⟩

/-- A sequence whose second step does not depend on what the first one gives. -/
theorem succeeds_bind_of_forall {x : Traced τ α} {f : α → Traced τ β} {p : Prop}
    (h : ∀ a, (f a).Succeeds ↔ p) : (x >>= f).Succeeds ↔ x.Succeeds ∧ p := by
  rw [succeeds_bind]
  constructor
  · intro h
    rcases h with ⟨a, ha, hf⟩
    exact ⟨⟨a, ha⟩, (h a).mp hf⟩
  · intro h
    rcases h with ⟨⟨a, ha⟩, hp⟩
    exact ⟨a, ha, (h a).mpr hp⟩

theorem succeeds_bind_pure {x : Traced τ α} {f : α → β} :
    (x >>= fun a => pure (f a)).Succeeds ↔ x.Succeeds := by
  rw [succeeds_bind_of_forall fun a => iff_true_intro (succeeds_pure (f a)), and_true]

theorem succeeds_map {x : Traced τ α} {f : α → β} : (f <$> x).Succeeds ↔ x.Succeeds := by
  rw [map_eq_pure_bind, succeeds_bind_pure]

theorem succeeds_mapM {γ : Type} {f : γ → Traced τ α} {cs : List γ} :
    (cs.mapM f).Succeeds ↔ ∀ c ∈ cs, (f c).Succeeds := by
  induction cs with
  | nil => simp
  | cons c cs ih =>
    rw [List.mapM_cons, succeeds_bind_of_forall (p := (cs.mapM f).Succeeds) fun a => ?_, ih]
    · simp
    · rw [succeeds_bind_pure]

/-- A list of steps stops at the first step that stops. -/
theorem result_mapM_eq_error_of {γ : Type} {f : γ → Traced τ α} {before after : List γ} {c : γ}
    {d : Defect} (hbefore : ∀ b ∈ before, (f b).Succeeds) (hc : (f c).result = .error d) :
    ((before ++ c :: after).mapM f).result = .error d := by
  induction before with
  | nil =>
    rw [List.nil_append, List.mapM_cons]
    exact result_bind_eq_error.mpr (.inl hc)
  | cons b before ih =>
    obtain ⟨⟨a, ha⟩, hbefore⟩ := List.forall_mem_cons.mp hbefore
    rw [List.cons_append, List.mapM_cons]
    refine result_bind_eq_error.mpr (.inr ⟨a, ha, ?_⟩)
    exact result_bind_eq_error.mpr (.inl (ih hbefore))

end Traced

namespace Lowering

variable {α β γ : Type}

theorem skips_bind_of_ok {x : Lowering α} {a : α} (f : α → Lowering β)
    (h : x.result = .ok a) : skips (x >>= f) = x.skips ++ (f a).skips := by
  rw [skips, Traced.trace_bind_of_ok f h, List.filterMap_append]
  rfl

theorem names_bind_of_ok {x : Lowering α} {a : α} (f : α → Lowering β)
    (h : x.result = .ok a) : names (x >>= f) = x.names ++ (f a).names := by
  rw [names, Traced.trace_bind_of_ok f h, List.filterMap_append]
  rfl

@[simp] theorem result_read (x : Naming α) : (read x : Lowering α).result = x.result := rfl

@[simp] theorem names_read (x : Naming α) : names (read x : Lowering α) = x.trace := by
  change (x.trace.map Event.name).filterMap Event.name? = _
  rw [List.filterMap_map]
  exact List.filterMap_some

@[simp] theorem skips_read (x : Naming α) : skips (read x : Lowering α) = [] := by
  change (x.trace.map Event.name).filterMap Event.skip? = _
  rw [List.filterMap_map]
  exact List.filterMap_eq_nil_iff.mpr fun _ _ => rfl

/-- Lowering without a defect: what it gives, and what it skips. -/
structure Yields (x : Lowering α) (a : α) (log : Log) : Prop where
  result : x.result = .ok a
  skips : x.skips = log

theorem yields_pure {a b : α} {log : Log} : Yields (pure a) b log ↔ b = a ∧ log = [] := by
  constructor
  · intro h
    rcases h with ⟨⟨⟩, rfl⟩
    exact ⟨rfl, rfl⟩
  · intro h
    rcases h with ⟨rfl, rfl⟩
    exact ⟨rfl, rfl⟩

theorem yields_read {x : Naming α} {a : α} {log : Log} :
    Yields (read x) a log ↔ x.result = .ok a ∧ log = [] := by
  constructor
  · intro h
    rcases h with ⟨ha, rfl⟩
    exact ⟨ha, skips_read x⟩
  · intro h
    rcases h with ⟨ha, rfl⟩
    exact ⟨ha, skips_read x⟩

theorem yields_skipAs {label : String} {n : Node} {u : Unit} {log : Log} :
    Yields (n.skipAs label) u log ↔ log = [.ofNode label n] := by
  constructor
  · intro h
    rcases h with ⟨-, rfl⟩
    rfl
  · rintro rfl
    exact ⟨rfl, rfl⟩

theorem yields_bind {x : Lowering α} {f : α → Lowering β} {b : β} {log : Log} :
    Yields (x >>= f) b log ↔
      ∃ a l l', x.Yields a l ∧ (f a).Yields b l' ∧ log = l ++ l' := by
  constructor
  · intro h
    rcases h with ⟨hb, rfl⟩
    obtain ⟨a, ha, hb⟩ := Traced.result_bind_eq_ok.mp hb
    exact ⟨a, x.skips, (f a).skips, ⟨ha, rfl⟩, ⟨hb, rfl⟩, skips_bind_of_ok f ha⟩
  · intro h
    rcases h with ⟨a, l, l', ⟨ha, rfl⟩, ⟨hb, rfl⟩, rfl⟩
    exact ⟨Traced.result_bind_eq_ok.mpr ⟨a, ha, hb⟩, skips_bind_of_ok f ha⟩

theorem yields_map {x : Lowering α} {f : α → β} {b : β} {log : Log} :
    Yields (f <$> x) b log ↔ ∃ a, x.Yields a log ∧ b = f a := by
  rw [map_eq_pure_bind, yields_bind]
  constructor
  · intro h
    rcases h with ⟨a, l, l', hx, hb, rfl⟩
    obtain ⟨rfl, rfl⟩ := yields_pure.mp hb
    exact ⟨a, by rwa [List.append_nil], rfl⟩
  · intro h
    rcases h with ⟨a, hx, rfl⟩
    exact ⟨a, log, [], hx, yields_pure.mpr ⟨rfl, rfl⟩, by rw [List.append_nil]⟩

/-- A declaration that is read and put to use. -/
theorem yields_read_bind_pure {x : Naming α} {f : α → β} {b : β} {log : Log} :
    Yields (read x >>= fun a => pure (f a)) b log ↔
      ∃ a, x.result = .ok a ∧ b = f a ∧ log = [] := by
  simp only [yields_bind, yields_read, yields_pure]
  constructor
  · intro h
    rcases h with ⟨a, _, _, ⟨ha, rfl⟩, ⟨rfl, rfl⟩, rfl⟩
    exact ⟨a, ha, rfl, rfl⟩
  · intro h
    rcases h with ⟨a, ha, rfl, rfl⟩
    exact ⟨a, [], [], ⟨ha, rfl⟩, ⟨rfl, rfl⟩, rfl⟩

theorem yields_forM_skipAs {label : String} {ns : List Node} {u : Unit} {log : Log} :
    Yields (ns.forM (Node.skipAs label)) u log ↔ log = ns.map (Skipped.ofNode label) := by
  induction ns generalizing log with
  | nil => simp [yields_pure]
  | cons n ns ih =>
    change Yields (n.skipAs label >>= fun _ => ns.forM (Node.skipAs label)) u log ↔ _
    simp only [yields_bind, yields_skipAs, ih]
    simp

/-- What a list of steps gives: a value and some entries for each step, in order. -/
theorem yields_mapM {f : γ → Lowering α} {cs : List γ} {as : List α} {log : Log} :
    Yields (cs.mapM f) as log ↔
      ∃ parts : List (α × Log), List.Forall₂ (fun c part => (f c).Yields part.1 part.2) cs parts ∧
        as = parts.map Prod.fst ∧ log = (parts.map Prod.snd).flatten := by
  induction cs generalizing as log with
  | nil => simp [yields_pure]
  | cons c cs ih =>
    rw [List.mapM_cons, yields_bind]
    constructor
    · intro h
      rcases h with ⟨a, l, l', ha, hrest, rfl⟩
      obtain ⟨as, l₁, l₂, has, hcons, rfl⟩ := yields_bind.mp hrest
      obtain ⟨rfl, rfl⟩ := yields_pure.mp hcons
      obtain ⟨parts, hparts, rfl, rfl⟩ := ih.mp has
      exact ⟨(a, l) :: parts, .cons ha hparts, rfl, by simp⟩
    · intro h
      rcases h with ⟨_, hparts, rfl, rfl⟩
      obtain ⟨part, rest, ha, hrest, rfl⟩ := List.forall₂_cons_left_iff.mp hparts
      refine ⟨part.1, part.2, _, ha, yields_bind.mpr ?_, rfl⟩
      exact ⟨_, _, [], ih.mpr ⟨rest, hrest, rfl, rfl⟩, yields_pure.mpr ⟨rfl, rfl⟩, by simp⟩

end Lowering
end VhdlLowering
