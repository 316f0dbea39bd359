import VhdlLowering.Lowering.Effects

/-!
# Results with a trace

Lowering may fail, and it leaves a trace of what it did on the way: the names it met and the
constructs it skipped. The trace of a step stands also if a later step fails, and nothing is traced
after a failure. The result is over the names themselves and depends on nothing but the tree.
-/

namespace VhdlLowering

/-- A value or a defect, with the trace left on the way. -/
structure Traced (τ α : Type) where
  result : Except Defect α
  trace : List τ

namespace Traced

variable {τ σ α β γ : Type}

protected def pure (a : α) : Traced τ α := ⟨.ok a, []⟩

protected def bind (x : Traced τ α) (f : α → Traced τ β) : Traced τ β :=
  match x.result with
  | .error d => ⟨.error d, x.trace⟩
  | .ok a => ⟨(f a).result, x.trace ++ (f a).trace⟩

instance : Monad (Traced τ) where
  pure := Traced.pure
  bind := Traced.bind

/-- Stops with a defect. -/
def fail (d : Defect) : Traced τ α := ⟨.error d, []⟩

/-- Adds to the trace. -/
def note (t : τ) : Traced τ Unit := ⟨.ok (), [t]⟩

/-- Renames what is traced. -/
def mapTrace (f : τ → σ) (x : Traced τ α) : Traced σ α := ⟨x.result, x.trace.map f⟩

/-- The values of the results in front of the first failure. -/
def valuesBeforeFailure : List (Traced τ α) → List α
  | [] => []
  | x :: xs =>
    match x.result with
    | .ok a => a :: valuesBeforeFailure xs
    | .error _ => []

@[simp] theorem result_pure (a : α) : (pure a : Traced τ α).result = .ok a := rfl

@[simp] theorem trace_pure (a : α) : (pure a : Traced τ α).trace = [] := rfl

@[simp] theorem result_fail (d : Defect) : (fail d : Traced τ α).result = .error d := rfl

@[simp] theorem trace_fail (d : Defect) : (fail d : Traced τ α).trace = [] := rfl

@[simp] theorem result_note (t : τ) : (note t).result = .ok () := rfl

@[simp] theorem trace_note (t : τ) : (note t).trace = [t] := rfl

theorem bind_of_ok {x : Traced τ α} {a : α} (f : α → Traced τ β) (h : x.result = .ok a) :
    x >>= f = ⟨(f a).result, x.trace ++ (f a).trace⟩ := by
  change Traced.bind x f = _
  simp [Traced.bind, h]

theorem bind_of_error {x : Traced τ α} {d : Defect} (f : α → Traced τ β)
    (h : x.result = .error d) : x >>= f = ⟨.error d, x.trace⟩ := by
  change Traced.bind x f = _
  simp [Traced.bind, h]

protected theorem bind_assoc (x : Traced τ α) (f : α → Traced τ β) (g : β → Traced τ γ) :
    x >>= f >>= g = x >>= fun a => f a >>= g := by
  obtain ⟨_ | a, t⟩ := x
  · rfl
  · rw [bind_of_ok f rfl, bind_of_ok (fun a => f a >>= g) rfl]
    cases h : (f a).result with
    | error d => rw [bind_of_error g rfl, bind_of_error g h]
    | ok b => rw [bind_of_ok g rfl, bind_of_ok g h, List.append_assoc]

protected theorem id_map (x : Traced τ α) : id <$> x = x := by
  obtain ⟨_ | a, t⟩ := x
  · rfl
  · change Traced.mk (.ok a) (t ++ []) = _
    rw [List.append_nil]

instance : LawfulMonad (Traced τ) :=
  LawfulMonad.mk' (Traced τ) Traced.id_map (fun _ _ => rfl) Traced.bind_assoc

end Traced

/-- What lowering leaves in its trace. -/
inductive Event where
  /-- A name was met. -/
  | name (s : String)
  /-- A construct was skipped. -/
  | skip (s : Skipped)
deriving DecidableEq, Repr

def Event.name? : Event → Option String
  | name s => some s
  | skip _ => none

def Event.skip? : Event → Option Skipped
  | name _ => none
  | skip s => some s

/-- Reads a declaration: only names are met. -/
abbrev Naming := Traced String

/-- Lowers a scope: names are met and constructs skipped. -/
abbrev Lowering := Traced Event

instance : MonadNaming String Naming where
  intern s := ⟨.ok s, [s]⟩
  fail := Traced.fail

@[default_instance]
instance : MonadLowering Naming Lowering where
  read := Traced.mapTrace .name
  skip s := Traced.note (.skip s)

namespace Lowering

variable {α : Type}

/-- The names met, in order. -/
def names (x : Lowering α) : List String := x.trace.filterMap Event.name?

/-- The constructs skipped, in order. -/
def skips (x : Lowering α) : Log := x.trace.filterMap Event.skip?

end Lowering

end VhdlLowering
