import VhdlLowering.Proofs.Alike

/-!
# Trees without tokens

The tokens of a tree, its keywords and punctuation, are read in two places only: in the text of a
name, a mode, a type or an expression, and among the items of a package, where a token is one more
unknown item. Anywhere else they may be left out.
-/

namespace VhdlLowering
namespace Node

mutual

/-- The tree without its tokens. What is below a text or below a node of an unknown kind stays as it
is, and so do the tokens among the items of a package. -/
def eraseTokens : Node → Node
  | ⟨.rule r, span, text, cs⟩ =>
    if Kind.isText r then ⟨.rule r, span, text, cs⟩
    else ⟨.rule r, span, text, eraseTokensAmong (decide (r ≠ .packageDeclarativePart)) cs⟩
  | ⟨.other name, span, text, cs⟩ => ⟨.other name, span, text, cs⟩

/-- The trees without their tokens; those that are tokens are left out if so wished. -/
def eraseTokensAmong (drop : Bool) : List Node → List Node
  | [] => []
  | c :: cs =>
    if drop && c.isToken then eraseTokensAmong drop cs
    else c.eraseTokens :: eraseTokensAmong drop cs

end

mutual

theorem alike_eraseTokens : ∀ n : Node, Alike n n.eraseTokens
  | ⟨.other _, _, _, _⟩ => .refl _
  | ⟨.rule r, span, text, cs⟩ => by
    rw [eraseTokens]
    split
    · exact .refl _
    · rename_i htext
      have hdrop : (Kind.rule r).passesTokens = decide (r ≠ .packageDeclarativePart) := rfl
      -- A text keeps its children, so no text is rebuilt from fewer leaves.
      exact ⟨⟨rfl, rfl⟩, fun hk => absurd hk htext, alikeChildren_eraseTokensAmong hdrop cs⟩

theorem alikeChildren_eraseTokensAmong {parent : Node} {drop : Bool}
    (hparent : parent.kind.passesTokens = drop) :
    ∀ cs : List Node, AlikeChildren Alike cs (eraseTokensAmong drop cs) parent
  | [] => .nil
  | c :: cs => by
    have hcs := alikeChildren_eraseTokensAmong hparent cs
    rw [eraseTokensAmong]
    split
    · rename_i htoken
      rw [Bool.and_eq_true] at htoken
      exact .token (hparent.trans htoken.1) htoken.2 hcs
    · exact .like c.alike_eraseTokens hcs

end

end Node

namespace Session

/-- Without its tokens a tree gives the same answer, and it leaves the same log and the same names,
whatever it is lowered as and whichever session it is lowered in. -/
theorem step_eraseTokens (s : Session) (target : Target) (ctx : Context) (n : Node) :
    s.step (.lower target ctx n.eraseTokens) = s.step (.lower target ctx n) :=
  (Node.likeness_alike.step_eq n.alike_eraseTokens s target ctx).symm

end Session

end VhdlLowering
