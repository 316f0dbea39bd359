import VhdlLowering.Lowering.Defect

/-!
# What lowering does besides computing

Reading a declaration interns names and stops at the first defect. Lowering a scope reads
declarations and skips constructs too. Every reader is written once, over any monad that can do
this: a session hands out the symbols of a shared table, a trace keeps the names as they are.
-/

namespace VhdlLowering

/-- Interns names of type `ν` and stops at a defect. -/
class MonadNaming (ν : outParam Type) (m : Type → Type) extends Monad m where
  intern : String → m ν
  fail {α : Type} : Defect → m α

/-- Reads declarations in `r` and skips constructs. -/
class MonadLowering (r : outParam (Type → Type)) (m : Type → Type) extends Monad m where
  read {α : Type} : r α → m α
  skip : Skipped → m Unit

export MonadNaming (intern)
export MonadLowering (read)

section Naming

variable {ν α : Type} {m : Type → Type} [MonadNaming ν m]

/-- A value that has to be there. -/
def require (x : Option α) (d : Defect) : m α :=
  match x with
  | some a => pure a
  | none => MonadNaming.fail d

/-- A node of the given kind. -/
def Node.ensure (n : Node) (r : Rule) : m Unit :=
  if n.kind = r then pure () else MonadNaming.fail (.unexpectedNode n r)

end Naming

/-- Skips a node. -/
def Node.skipAs {r m : Type → Type} [MonadLowering r m] (label : String) (n : Node) : m Unit :=
  MonadLowering.skip (.ofNode label n)

end VhdlLowering
