import VhdlLowering.Source.Span
import VhdlLowering.Syntax.Kind

/-!
# Syntax trees

A node has a kind, a span, a text of its own and its children in source order. Children are looked
up by kind, directly or at any depth, and the first in source order wins.
-/

namespace VhdlLowering

structure Node where
  kind : Kind
  span : Span
  text : String
  children : List Node
deriving Repr

namespace Node

instance : Inhabited Node := ⟨⟨.other "", default, "", []⟩⟩

def leaf (kind : Kind) (span : Span) (text : String) : Node := ⟨kind, span, text, []⟩

/-- A node whose text is made of its children's texts, one space between two. -/
def branch (kind : Kind) (span : Span) (children : List Node) : Node :=
  ⟨kind, span, String.intercalate " " (children.map text), children⟩

mutual

def decEq : (m n : Node) → Decidable (m = n)
  | ⟨k, s, t, cs⟩, ⟨k', s', t', cs'⟩ =>
    if h : k = k' ∧ s = s' ∧ t = t' then
      match decEqList cs cs' with
      | isTrue hc => isTrue (by rw [h.1, h.2.1, h.2.2, hc])
      | isFalse hc => isFalse (by simp [hc])
    else
      isFalse (by simp only [mk.injEq]; exact fun e => h ⟨e.1, e.2.1, e.2.2.1⟩)

def decEqList : (ms ns : List Node) → Decidable (ms = ns)
  | [], [] => isTrue rfl
  | [], _ :: _ => isFalse (by simp)
  | _ :: _, [] => isFalse (by simp)
  | m :: ms, n :: ns =>
    match decEq m n with
    | isFalse h => isFalse (by simp [h])
    | isTrue h =>
      match decEqList ms ns with
      | isTrue hs => isTrue (by rw [h, hs])
      | isFalse hs => isFalse (by simp [hs])

end

instance : DecidableEq Node := decEq

mutual

/-- Number of nodes in a tree. -/
def size : Node → Nat
  | ⟨_, _, _, cs⟩ => sizes cs + 1

/-- Number of nodes in a list of trees. -/
def sizes : List Node → Nat
  | [] => 0
  | c :: cs => c.size + sizes cs

end

theorem size_eq (n : Node) : n.size = sizes n.children + 1 := by
  cases n; rfl

@[simp] theorem sizes_nil : sizes [] = 0 := rfl

@[simp] theorem sizes_cons (c : Node) (cs : List Node) : sizes (c :: cs) = c.size + sizes cs := rfl

theorem size_le_sizes_of_mem {c : Node} : ∀ {cs : List Node}, c ∈ cs → c.size ≤ sizes cs
  | d :: ds, h => by
    rcases List.mem_cons.mp h with rfl | h
    · simp
    · have := size_le_sizes_of_mem h
      simp only [sizes_cons]
      omega

theorem size_lt_of_mem_children {c n : Node} (h : c ∈ n.children) : c.size < n.size := by
  have := size_le_sizes_of_mem h
  rw [size_eq n]
  omega

/-- A token is a leaf that bears the name of a token. -/
def isToken (n : Node) : Bool := n.kind.isTokenName && n.children.isEmpty

/-- The children that are not tokens. -/
def phrases (n : Node) : List Node := n.children.filter fun c => !c.isToken

def child? (n : Node) (k : Kind) : Option Node := n.children.find? fun c => c.kind = k

def childrenOf (n : Node) (k : Kind) : List Node := n.children.filter fun c => c.kind = k

theorem mem_children_of_child? {n c : Node} {k : Kind} (h : n.child? k = some c) :
    c ∈ n.children :=
  List.mem_of_find?_eq_some h

theorem kind_of_child? {n c : Node} {k : Kind} (h : n.child? k = some c) : c.kind = k := by
  simpa using List.find?_some h

theorem size_lt_of_child? {n c : Node} {k : Kind} (h : n.child? k = some c) : c.size < n.size :=
  size_lt_of_mem_children (mem_children_of_child? h)

mutual

/-- The first node of the kind strictly below a node; a node comes before what is below it. -/
def findDescendant? (k : Kind) : Node → Option Node
  | ⟨_, _, _, cs⟩ => findAmong? k cs

/-- The first node of the kind among the given nodes and what is below them. -/
def findAmong? (k : Kind) : List Node → Option Node
  | [] => none
  | c :: cs => if c.kind = k then some c else (findDescendant? k c).or (findAmong? k cs)

end

theorem findDescendant?_eq (k : Kind) (n : Node) :
    n.findDescendant? k = findAmong? k n.children := by
  cases n; rfl

end Node

end VhdlLowering
