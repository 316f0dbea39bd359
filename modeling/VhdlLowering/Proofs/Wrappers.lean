import Mathlib.Logic.Relation
import VhdlLowering.Proofs.Alike

/-!
# Putting up wrappers

The grammars differ in the nodes that they put around the items of a package, around library units
and around the declarations of an interface clause. Wrappers of these three sorts may be put up one
after the other, in each other as well, and the tree is still lowered as before.
-/

namespace VhdlLowering

theorem Kind.isText_of_takesWrappers {k : Kind} (h : k.takesWrappers = true) :
    k.isText = false := by
  unfold takesWrappers at h
  split at h <;> first | rfl | cases h

namespace Node

/-- The second tree has one wrapper more than the first one, anywhere but inside a text. -/
inductive WrapStep : Node → Node → Prop
  | here {kind : Kind} {span : Span} {text : String} (before after : List Node) {c w : Node}
      (h : Wraps ⟨kind, span, text, before ++ c :: after⟩ c w) :
      WrapStep ⟨kind, span, text, before ++ c :: after⟩ ⟨kind, span, text, before ++ w :: after⟩
  | inside {kind : Kind} {span : Span} {text : String} (before after : List Node) {c d : Node}
      (hkind : kind.isText = false) (h : WrapStep c d) :
      WrapStep ⟨kind, span, text, before ++ c :: after⟩ ⟨kind, span, text, before ++ d :: after⟩

/-- Children with one of them changed are alike if that one is. -/
theorem AlikeChildren.replace {parent c d : Node} (before after : List Node)
    (h : AlikeChildren Alike (c :: after) (d :: after) parent) :
    AlikeChildren Alike (before ++ c :: after) (before ++ d :: after) parent := by
  induction before with
  | nil => exact h
  | cons b before ih => exact .like (.refl b) ih

theorem WrapStep.alike {m n : Node} (h : WrapStep m n) : Alike m n := by
  -- The parent is no text in either case, so nothing is asked of its own text.
  induction h with
  | @here kind span text before after c w h =>
    have hkind : kind.isText = false := Kind.isText_of_takesWrappers h.takesWrappers
    exact ⟨⟨rfl, rfl⟩, fun hk => absurd hk (Bool.eq_false_iff.mp hkind),
      .replace before after (.wrapper h (.refl _ after))⟩
  | inside before after hkind _ ih =>
    exact ⟨⟨rfl, rfl⟩, fun hk => absurd hk (Bool.eq_false_iff.mp hkind),
      .replace before after (.like ih (.refl _ after))⟩

end Node

namespace Session

/-- However many wrappers are put up, the tree gives the same answer, and it leaves the same log and
the same names. -/
theorem step_wrapped {m n : Node} (h : Relation.ReflTransGen Node.WrapStep m n) (s : Session)
    (target : Target) (ctx : Context) :
    s.step (.lower target ctx n) = s.step (.lower target ctx m) := by
  induction h with
  | refl => rfl
  | tail _ hstep ih => rw [← ih, Node.likeness_alike.step_eq hstep.alike s target ctx]

/-- A node around another one and a token. -/
def wrapperOf (rule : Rule) (c : Node) : Node :=
  ⟨.rule rule, ⟨0, 9⟩, "", [c, .leaf (.other "SEMI") ⟨8, 9⟩ ";"]⟩

def clockPort : Node :=
  .branch (.rule .interfaceSignalDeclaration) ⟨5, 7⟩
    [.branch (.rule .identifierList) ⟨5, 6⟩ [.leaf (.rule .identifier) ⟨5, 6⟩ "clk"],
      .leaf (.rule .subtypeIndication) ⟨6, 7⟩ "bit"]

def componentOf (port : Node) : Node :=
  ⟨.rule .componentDeclaration, ⟨3, 8⟩, "", [.leaf (.rule .identifier) ⟨3, 4⟩ "c",
    ⟨.rule .portClause, ⟨4, 8⟩, "", [port]⟩]⟩

def packageOf (item : Node) : Node :=
  ⟨.rule .packageDeclaration, ⟨1, 9⟩, "", [.leaf (.rule .identifier) ⟨1, 2⟩ "p",
    ⟨.rule .packageDeclarativePart, ⟨2, 9⟩, "", [item]⟩]⟩

def fileOf (unit : Node) : Node := ⟨.rule .designFile, ⟨0, 9⟩, "", [unit]⟩

/-- A package with a component with a port, in wrappers or without. -/
def bareFile : Node := fileOf (packageOf (componentOf clockPort))

def wrappedFile : Node :=
  fileOf (wrapperOf .libraryUnit (wrapperOf .primaryUnit (packageOf
    (wrapperOf .packageDeclarativeItem (componentOf (wrapperOf .interfaceList clockPort))))))

theorem wrappedFile_lowered :
    Relation.ReflTransGen Node.WrapStep bareFile wrappedFile ∧
    start.step (.lower .designFile ⟨⟨0⟩, false⟩ wrappedFile) =
      start.step (.lower .designFile ⟨⟨0⟩, false⟩ bareFile) ∧
    ∃ p, (start.step (.lower .designFile ⟨⟨0⟩, false⟩ bareFile)).1 = .ok (some p) := by
  have honly (rule : Rule) (c : Node) : (wrapperOf rule c).HoldsOnly c :=
    ⟨[], [.leaf (.other "SEMI") ⟨8, 9⟩ ";"], rfl,
      fun _ ht => List.mem_singleton.mp ht ▸ rfl⟩
  have hfile {c d : Node} (h : (packageOf c).WrapStep (packageOf d)) :
      (fileOf (packageOf c)).WrapStep (fileOf (packageOf d)) := .inside [] [] rfl h
  have hport : (packageOf (componentOf clockPort)).WrapStep
      (packageOf (componentOf (wrapperOf .interfaceList clockPort))) :=
    .inside [.leaf (.rule .identifier) ⟨1, 2⟩ "p"] [] rfl (.inside [] [] rfl
      (.inside [.leaf (.rule .identifier) ⟨3, 4⟩ "c"] [] rfl
        (.here [] [] (.interface (.inl rfl) rfl rfl (by decide) nofun (honly _ _)))))
  have hitem (port : Node) : (packageOf (componentOf port)).WrapStep
      (packageOf (wrapperOf .packageDeclarativeItem (componentOf port))) :=
    .inside [.leaf (.rule .identifier) ⟨1, 2⟩ "p"] [] rfl
      (.here [] [] (.item rfl rfl ⟨.componentDeclaration, by decide, rfl⟩ (honly _ _)))
  have hunit {wrapper : Rule} (hw : Node.isUnitWrapper wrapper) {unit : Node}
      (htoken : unit.isToken = false) (hunit : unit.kind ≠ .rule .designUnit)
      (hcontext : unit.kind.isContext = false) :
      (fileOf unit).WrapStep (fileOf (wrapperOf wrapper unit)) :=
    .here [] [] (.unit (.inl rfl) hw htoken hunit hcontext (honly _ _))
  have hsteps : Relation.ReflTransGen Node.WrapStep bareFile wrappedFile :=
    (Relation.ReflTransGen.single (hfile hport)).tail (hfile (hitem _))
      |>.tail (hunit rfl rfl nofun rfl) |>.tail (hunit rfl rfl nofun rfl)
  exact ⟨hsteps, step_wrapped hsteps start .designFile ⟨⟨0⟩, false⟩,
    step_succeeds_iff.mpr (by decide +kernel)⟩

end Session

end VhdlLowering
