import VhdlLowering.Syntax.Node
import VhdlLowering.Text.Blank

/-!
# Source text of a node

The source text of a node is its own text, trimmed. A front end may leave the text of an inner node
blank; the text is then rebuilt from the leaves below the node, in source order.
-/

namespace VhdlLowering
namespace Node

def trimmedText (n : Node) : String := Text.trim n.text

mutual

/-- The trimmed texts of the leaves of a tree, blank ones left out. -/
def leafTexts : Node → List String
  | ⟨_, _, text, cs⟩ =>
    if cs.isEmpty then
      if Text.trim text = "" then [] else [Text.trim text]
    else
      leafTextsOf cs

def leafTextsOf : List Node → List String
  | [] => []
  | c :: cs => leafTexts c ++ leafTextsOf cs

end

def sourceText (n : Node) : String :=
  if n.trimmedText ≠ "" ∨ n.children.isEmpty then n.trimmedText
  else String.intercalate " " n.leafTexts

theorem sourceText_of_ne {n : Node} (h : n.trimmedText ≠ "") : n.sourceText = n.trimmedText := by
  simp [sourceText, h]

end Node
end VhdlLowering
