import VhdlLowering.Syntax.Node

/-!
# Source order

A node comes before what is below it, and all that is below a child comes before the next child. In
this order the leaves of a tree spell the source, and the first node of a kind is the one that
looking for the kind finds.
-/

namespace VhdlLowering
namespace Node

mutual

/-- The nodes of a tree in source order. -/
def preorder : Node → List Node
  | ⟨kind, span, text, cs⟩ => ⟨kind, span, text, cs⟩ :: preorderOf cs

def preorderOf : List Node → List Node
  | [] => []
  | c :: cs => preorder c ++ preorderOf cs

end

/-- The nodes without children in source order. -/
def leaves (n : Node) : List Node := n.preorder.filter fun m => m.children.isEmpty

/-- The nodes below a node in source order. -/
def descendants (n : Node) : List Node := preorderOf n.children

theorem preorder_eq (n : Node) : n.preorder = n :: n.descendants := by
  cases n; rfl

theorem preorderOf_append (cs ds : List Node) :
    preorderOf (cs ++ ds) = preorderOf cs ++ preorderOf ds := by
  induction cs with
  | nil => rfl
  | cons c cs ih => rw [List.cons_append, preorderOf, preorderOf, ih, List.append_assoc]

mutual

theorem findDescendant?_eq_find? (k : Kind) : ∀ n : Node,
    n.findDescendant? k = n.descendants.find? fun d => d.kind = k
  | ⟨_, _, _, cs⟩ => findAmong?_eq_find? k cs

theorem findAmong?_eq_find? (k : Kind) : ∀ cs : List Node,
    findAmong? k cs = (preorderOf cs).find? fun d => d.kind = k
  | [] => rfl
  | c :: cs => by
    rw [findAmong?, preorderOf, preorder_eq, List.find?_append, List.find?_cons,
      findDescendant?_eq_find? k c, findAmong?_eq_find? k cs]
    by_cases hk : c.kind = k <;> simp [hk]

end

theorem findAmong?_append (k : Kind) (cs ds : List Node) :
    findAmong? k (cs ++ ds) = (findAmong? k cs).or (findAmong? k ds) := by
  simp only [findAmong?_eq_find?, preorderOf_append, List.find?_append]

theorem kind_of_findDescendant? {k : Kind} {n d : Node} (h : n.findDescendant? k = some d) :
    d.kind = k := by
  rw [findDescendant?_eq_find?] at h
  simpa using List.find?_some h

end Node
end VhdlLowering
