import VhdlLowering.Lowering.DesignFile
import VhdlLowering.Name.Table

/-!
# Sessions

Several trees may be lowered with one name table and one log. While a tree is lowered, each of its
names is interned in the table as it is met and each skipped construct is logged; what is interned
and logged stays, also if the tree turns out to have a defect. The trees that a session hands out
are over symbols of its table.
-/

namespace VhdlLowering

namespace NameTable

/-- Interns names one after the other. -/
def internAll (t : NameTable) (names : List String) : NameTable :=
  names.foldl (fun t s => (t.intern s).2) t

@[simp] theorem internAll_nil (t : NameTable) : t.internAll [] = t := rfl

theorem internAll_append (t : NameTable) (ss rs : List String) :
    t.internAll (ss ++ rs) = (t.internAll ss).internAll rs := by
  simp [internAll]

end NameTable

structure Session where
  names : NameTable
  log : Log

/-- Reads a declaration with a name table. The table is kept at a defect. -/
abbrev TableM := EStateM Defect NameTable

instance : MonadNaming Symbol TableM where
  intern s := fun t => .ok (t.intern s).1 (t.intern s).2
  fail := throw

/-- Lowers a scope in a session. The session is kept at a defect. -/
abbrev SessionM := EStateM Defect Session

instance : MonadLowering TableM SessionM where
  read x := fun s =>
    match x.run s.names with
    | .ok a t => .ok a { s with names := t }
    | .error d t => .error d { s with names := t }
  skip e := fun s => .ok () { s with log := s.log ++ [e] }

/-- What a tree may be lowered as. -/
inductive Target where
  | package
  | component
  | designFile
deriving DecidableEq, Repr

/-- What lowering a tree gives. -/
inductive Product (ν : Type) where
  | package (p : Package ν)
  | component (c : Component ν)
  | packages (ps : List (Package ν))
deriving DecidableEq

def Product.map {ν μ : Type} (f : ν → μ) : Product ν → Product μ
  | package p => package (Package.map f p)
  | component c => component (c.map f)
  | packages ps => packages (ps.map (Package.map f))

def Target.lower {ν : Type} {r m : Type → Type} [MonadNaming ν r] [MonadLowering r m]
    (ctx : Context) (n : Node) : Target → m (Product ν)
  | package => .package <$> Package.ofNode ctx n
  | component => .component <$> Component.ofNode ctx n
  | designFile => .packages <$> DesignFile.lower ctx n

namespace Session

/-- No names and no skipped constructs. -/
def start : Session := ⟨.empty, []⟩

/-- The session brought up to date with a trace, whatever the result is. -/
def after {α : Type} (s : Session) (x : Lowering α) : Session :=
  ⟨s.names.internAll x.names, s.log ++ x.skips⟩

inductive Step where
  | lower (target : Target) (ctx : Context) (n : Node)
  /-- Logs a node as skipped. -/
  | report (label : String) (n : Node)

/-- What a step answers: a defect, or a tree unless the step only reports. -/
abbrev Answer (ν : Type) := Except Defect (Option (Product ν))

/-- The answer of a step, and the session after it. -/
def step (s : Session) : Step → Answer Symbol × Session
  | .lower target ctx n =>
    match (target.lower ctx n : SessionM (Product Symbol)).run s with
    | .ok p next => (.ok (some p), next)
    | .error d next => (.error d, next)
  | .report label n => (.ok none, { s with log := s.log ++ [.ofNode label n] })

/-- The answers of the steps, and the session after them. -/
def run (s : Session) : List Step → List (Answer Symbol) × Session
  | [] => ([], s)
  | x :: xs =>
    let (a, s) := s.step x
    let (as, s) := s.run xs
    (a :: as, s)

end Session

end VhdlLowering
