import VhdlLowering.Lowering.Scope

/-!
# Design files

A design file holds design units, and a unit its context clause and a library unit; the parts of a
unit may also stand in the file directly. Packages are lowered in source order. Context items and all
other library units are skipped. A library unit may stand in wrappers, of which only the first child
that is no token counts.
-/

namespace VhdlLowering
namespace Node

/-- The parts of the units of a design file, in source order. -/
def unitParts (root : Node) : List Node :=
  root.phrases.flatMap fun u => if u.kind = .rule .designUnit then u.phrases else [u]

def isUnitWrapper (k : Kind) : Bool :=
  k = .rule .libraryUnit || k = .rule .primaryUnit || k = .rule .secondaryUnit

mutual

/-- The library unit in its wrappers; a wrapper around nothing but tokens is left as it is. -/
def libraryUnit : Node → Node
  | ⟨k, s, t, cs⟩ =>
    if isUnitWrapper k then (libraryUnitAmong cs).getD ⟨k, s, t, cs⟩ else ⟨k, s, t, cs⟩

def libraryUnitAmong : List Node → Option Node
  | [] => none
  | c :: cs => if c.isToken then libraryUnitAmong cs else some (libraryUnit c)

end

theorem libraryUnitAmong_eq (cs : List Node) :
    libraryUnitAmong cs = ((cs.filter fun c => !c.isToken).head?).map libraryUnit := by
  induction cs with
  | nil => rfl
  | cons c cs ih =>
    rw [libraryUnitAmong, ih]
    cases htoken : c.isToken <;> simp [htoken]

/-- One wrapper is taken off at a time. -/
theorem libraryUnit_eq (n : Node) :
    n.libraryUnit =
      if isUnitWrapper n.kind then (n.phrases.head?.map libraryUnit).getD n else n := by
  obtain ⟨kind, span, text, cs⟩ := n
  rw [libraryUnit, libraryUnitAmong_eq]
  rfl

end Node

namespace DesignFile

variable {ν : Type} {r m : Type → Type} [MonadNaming ν r] [MonadLowering r m]

def skipContextItem (n : Node) : m Unit := n.skipAs "DesignFileParser.visitContext_item"

/-- The packages of one part of a unit: at most one. -/
def lowerPart (ctx : Context) (n : Node) : m (List (Package ν)) :=
  match n.kind with
  | .rule .contextClause => do
    n.phrases.forM skipContextItem
    return []
  | .rule .contextItem | .rule .libraryClause | .rule .useClause => do
    skipContextItem n
    return []
  | _ =>
    if n.libraryUnit.kind = .rule .packageDeclaration then do
      return [← Package.ofNode ctx n.libraryUnit]
    else do
      n.libraryUnit.skipAs "DesignFileParser.visitLibrary_unit"
      return []

/-- The packages of a design file. -/
def lower (ctx : Context) (root : Node) : m (List (Package ν)) := do
  read (root.ensure .designFile)
  return (← root.unitParts.mapM (lowerPart ctx)).flatten

end DesignFile
end VhdlLowering
