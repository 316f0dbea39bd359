import Mathlib.Data.List.DropRight
import VhdlLowering.Proofs.Alike
import VhdlLowering.Proofs.Subtrees

/-!
# Stored texts and rebuilt texts

An inner node stores the texts of its children, one space between two. When it stores nothing its
text is rebuilt from the leaves below, again with one space between two. The two are the same text,
so it makes no difference to lowering whether inner nodes store their texts.
-/

namespace VhdlLowering

namespace Text

/-- A text that is neither empty nor has white space at one of its ends. -/
def IsNeat (s : String) : Prop := s ≠ "" ∧ trim s = s

instance : DecidablePred IsNeat := fun s => inferInstanceAs (Decidable (s ≠ "" ∧ trim s = s))

theorem trimChars_eq_self_iff {cs : List Char} :
    trimChars cs = cs ↔
      (∀ c ∈ cs.head?, isBlank c = false) ∧ ∀ c ∈ cs.getLast?, isBlank c = false := by
  have htrim : trimChars cs = (cs.dropWhile isBlank).rdropWhile isBlank := rfl
  have hleft : cs.dropWhile isBlank = cs ↔ ∀ c ∈ cs.head?, isBlank c = false := by
    cases cs <;> simp [List.dropWhile_eq_self_iff]
  have hright : cs.rdropWhile isBlank = cs ↔ ∀ c ∈ cs.getLast?, isBlank c = false := by
    rw [List.rdropWhile_eq_self_iff]
    cases cs using List.reverseRecOn <;> simp
  rw [htrim, ← hleft, ← hright]
  refine ⟨fun h => ?_, fun ⟨hl, hr⟩ => by rw [hl, hr]⟩
  -- Nothing is cut off on the left, because what is left over is not shorter than the whole.
  have hl : cs.dropWhile isBlank = cs := by
    refine (List.dropWhile_suffix isBlank).eq_of_length (le_antisymm ?_ ?_)
    · exact (List.dropWhile_suffix isBlank).length_le
    · have := (List.rdropWhile_prefix isBlank (cs.dropWhile isBlank)).length_le
      rwa [h] at this
  exact ⟨hl, by rwa [hl] at h⟩

theorem isNeat_iff {s : String} :
    IsNeat s ↔ (∃ c ∈ s.toList.head?, isBlank c = false) ∧
      ∃ c ∈ s.toList.getLast?, isBlank c = false := by
  have hne : s ≠ "" ↔ s.toList ≠ [] := by simp
  have htrim : trim s = s ↔ trimChars s.toList = s.toList := by
    rw [← toList_trim, String.toList_inj]
  rw [IsNeat, hne, htrim, trimChars_eq_self_iff]
  generalize s.toList = cs
  cases hhead : cs.head? with
  | none => simp [List.head?_eq_none_iff.mp hhead]
  | some c =>
    obtain ⟨d, hlast⟩ : ∃ d, cs.getLast? = some d := by
      cases cs with
      | nil => cases hhead
      | cons c cs => exact ⟨_, List.getLast?_cons⟩
    have hcs : cs ≠ [] := fun h => by simp [h] at hhead
    simp [hlast, hcs]

theorem IsNeat.append {s t : String} (hs : IsNeat s) (ht : IsNeat t) (u : String) :
    IsNeat (s ++ u ++ t) := by
  rw [isNeat_iff] at *
  obtain ⟨⟨c, hc, hblank⟩, -⟩ := hs
  obtain ⟨-, d, hd, hblank'⟩ := ht
  rw [Option.mem_def] at hc hd
  exact ⟨⟨c, by simp [hc], hblank⟩, d, by simp [hd], hblank'⟩

theorem isNeat_intercalate {ts : List String} (hne : ts ≠ []) (h : ∀ t ∈ ts, IsNeat t) :
    IsNeat (String.intercalate " " ts) := by
  induction ts with
  | nil => cases hne rfl
  | cons t ts ih =>
    obtain ⟨ht, hts⟩ := List.forall_mem_cons.mp h
    by_cases hnil : ts = []
    · rwa [hnil, String.intercalate_singleton]
    · rw [String.intercalate_cons_of_ne_nil hnil]
      exact ht.append (ih hnil hts) " "

end Text

namespace Node

/-- A tree whose inner nodes store the texts of their children. -/
inductive Built : Node → Prop
  | leaf (kind : Kind) (span : Span) (text : String) : Built (.leaf kind span text)
  | branch (kind : Kind) (span : Span) {children : List Node} (h : ∀ c ∈ children, Built c) :
      Built (.branch kind span children)

theorem Built.children {n : Node} (h : n.Built) : ∀ c ∈ n.children, c.Built := by
  cases h with
  | leaf => nofun
  | branch _ _ h => exact h

theorem built_branch {kind : Kind} {span : Span} {children : List Node} :
    (Node.branch kind span children).Built ↔ ∀ c ∈ children, c.Built :=
  ⟨Built.children, .branch kind span⟩

/-- All leaves of the tree have neat texts. -/
def HasNeatLeaves (n : Node) : Prop :=
  ∀ l : Node, l.Within n → l.children = [] → Text.IsNeat l.text

/-- The leaves below the nodes that are read as texts have neat texts. -/
def HasNeatTexts (n : Node) : Prop :=
  ∀ x : Node, x.Within n → x.kind.isText = true → ∀ c ∈ x.children, c.HasNeatLeaves

theorem hasNeatLeaves_leaf {kind : Kind} {span : Span} {text : String} :
    (Node.leaf kind span text).HasNeatLeaves ↔ Text.IsNeat text := by
  refine ⟨fun h => h _ (.root _) rfl, fun h l hl _ => ?_⟩
  cases hl with
  | root => exact h
  | inChild hd => cases hd

theorem hasNeatLeaves_branch {kind : Kind} {span : Span} {children : List Node}
    (hne : children ≠ []) :
    (Node.branch kind span children).HasNeatLeaves ↔ ∀ c ∈ children, c.HasNeatLeaves := by
  refine ⟨fun h c hc l hl => h l (.inChild hc hl), fun h l hl hleaf => ?_⟩
  cases hl with
  | root => cases hne hleaf
  | inChild hd hl => exact h _ hd l hl hleaf

theorem hasNeatTexts_leaf {kind : Kind} {span : Span} {text : String} :
    (Node.leaf kind span text).HasNeatTexts := by
  intro x hx _
  cases hx with
  | root => exact nofun
  | inChild hd => cases hd

theorem hasNeatTexts_branch {kind : Kind} {span : Span} {children : List Node} :
    (Node.branch kind span children).HasNeatTexts ↔
      (kind.isText = true → ∀ c ∈ children, c.HasNeatLeaves) ∧
        ∀ c ∈ children, c.HasNeatTexts := by
  refine ⟨fun h => ⟨h _ (.root _), fun c hc x hx => h x (.inChild hc hx)⟩, fun ⟨h, hs⟩ x hx => ?_⟩
  cases hx with
  | root => exact h
  | inChild hd hx => exact hs _ hd x hx

theorem HasNeatTexts.children {n : Node} (h : n.HasNeatTexts) : ∀ c ∈ n.children, c.HasNeatTexts :=
  fun _ hc x hx => h x (.inChild hc hx)

/-- A node whose text is made of neat texts of its leaves. -/
structure JoinsLeaves (n : Node) : Prop where
  nonempty : n.leafTexts ≠ []
  neat : ∀ t ∈ n.leafTexts, Text.IsNeat t
  text : n.text = String.intercalate " " n.leafTexts

theorem leafTextsOf_eq_flatMap (cs : List Node) : leafTextsOf cs = cs.flatMap leafTexts := by
  induction cs with
  | nil => rfl
  | cons c cs ih => rw [leafTextsOf, ih, List.flatMap_cons]

theorem leafTexts_of_children {n : Node} (h : n.children ≠ []) :
    n.leafTexts = n.children.flatMap leafTexts := by
  obtain ⟨kind, span, text, cs⟩ := n
  rw [leafTexts, if_neg (by simpa using h), leafTextsOf_eq_flatMap]

theorem flatMap_leafTexts_ne_nil {cs : List Node} (hne : cs ≠ []) (h : ∀ c ∈ cs, c.JoinsLeaves) :
    cs.flatMap leafTexts ≠ [] := by
  obtain ⟨c, hc⟩ := List.exists_mem_of_ne_nil _ hne
  rw [Ne, List.flatMap_eq_nil_iff]
  exact fun hnil => (h c hc).nonempty (hnil c hc)

/-- Joins of joins flatten. -/
theorem intercalate_texts {cs : List Node} (h : ∀ c ∈ cs, c.JoinsLeaves) :
    String.intercalate " " (cs.map text) = String.intercalate " " (cs.flatMap leafTexts) := by
  induction cs with
  | nil => rfl
  | cons c cs ih =>
    obtain ⟨hc, hcs⟩ := List.forall_mem_cons.mp h
    rw [List.map_cons, List.flatMap_cons]
    by_cases hnil : cs = []
    · simp [hnil, hc.text]
    · have hne := flatMap_leafTexts_ne_nil hnil hcs
      rw [String.intercalate_cons_of_ne_nil (by simpa using hnil), ih hcs,
        String.intercalate_append_of_ne_nil hc.nonempty hne, hc.text]

/-- In a tree that stores its texts every text is the join of its leaves. -/
theorem Built.joinsLeaves {n : Node} (h : n.Built)
    (hneat : n.HasNeatLeaves) : n.JoinsLeaves := by
  induction h with
  | leaf kind span text =>
    have htext : Text.IsNeat text := hneat _ (.root _) rfl
    have hleaf : (Node.leaf kind span text).leafTexts = [text] := by
      rw [Node.leaf, leafTexts, List.isEmpty_nil, if_pos rfl, htext.2, if_neg htext.1]
    refine ⟨by simp [hleaf], by simpa [hleaf] using htext, ?_⟩
    rw [hleaf, String.intercalate_singleton]
    rfl
  | @branch kind span children hbuilt ih =>
    have hne : children ≠ [] := fun hnil => by
      subst hnil
      exact (hneat _ (.root _) rfl).1 rfl
    have hjoins : ∀ c ∈ children, c.JoinsLeaves := fun c hc =>
      ih c hc fun l hl => hneat l (.inChild hc hl)
    have hleaves : (Node.branch kind span children).leafTexts = children.flatMap leafTexts :=
      leafTexts_of_children hne
    refine ⟨?_, ?_, ?_⟩
    · rw [hleaves]
      exact flatMap_leafTexts_ne_nil hne hjoins
    · rw [hleaves, List.forall_mem_flatMap]
      exact fun c hc => (hjoins c hc).neat
    · rw [hleaves]
      exact intercalate_texts hjoins

/-- Without a text of its own a node has the text of its leaves. -/
theorem sourceText_of_blank {n : Node} (h : n.trimmedText = "") :
    n.sourceText = String.intercalate " " n.leafTexts := by
  obtain ⟨kind, span, text, cs⟩ := n
  cases cs with
  | nil =>
    have htext : Text.trim text = "" := h
    simp [sourceText, trimmedText, leafTexts, htext]
  | cons c cs => rw [sourceText, if_neg (by simp [h])]

theorem JoinsLeaves.sourceText {n : Node} (h : n.JoinsLeaves) :
    n.sourceText = String.intercalate " " n.leafTexts := by
  have hneat := Text.isNeat_intercalate h.nonempty h.neat
  rw [← h.text] at hneat ⊢
  rw [sourceText_of_ne (n := n) (by rw [trimmedText, hneat.2]; exact hneat.1), trimmedText, hneat.2]

mutual

/-- The tree in which only leaves have a text. -/
def dropTexts : Node → Node
  | ⟨kind, span, text, cs⟩ => ⟨kind, span, if cs.isEmpty then text else "", dropTextsAmong cs⟩

def dropTextsAmong : List Node → List Node
  | [] => []
  | c :: cs => c.dropTexts :: dropTextsAmong cs

end

mutual

theorem leafTexts_dropTexts : ∀ n : Node, n.dropTexts.leafTexts = n.leafTexts
  | ⟨_, _, _, []⟩ => rfl
  | ⟨_, _, _, c :: cs⟩ => by
    rw [dropTexts, dropTextsAmong, leafTexts, leafTexts]
    exact leafTextsOf_dropTextsAmong (c :: cs)

theorem leafTextsOf_dropTextsAmong :
    ∀ cs : List Node, leafTextsOf (dropTextsAmong cs) = leafTextsOf cs
  | [] => rfl
  | c :: cs => by
    rw [dropTextsAmong, leafTextsOf, leafTextsOf, leafTexts_dropTexts c,
      leafTextsOf_dropTextsAmong cs]

end

/-- The text that a node stores is the text rebuilt without it. -/
theorem sourceText_dropTexts {n : Node} (hbuilt : n.Built)
    (hneat : ∀ c ∈ n.children, c.HasNeatLeaves) :
    n.dropTexts.sourceText = n.sourceText := by
  obtain ⟨kind, span, text, cs⟩ := n
  cases cs with
  | nil => rfl
  | cons c cs =>
    have hjoins : Node.JoinsLeaves ⟨kind, span, text, c :: cs⟩ := by
      refine hbuilt.joinsLeaves fun l hl hleaf => ?_
      cases hl with
      | root => cases hleaf
      | inChild hd hl => exact hneat _ hd l hl hleaf
    rw [hjoins.sourceText, ← leafTexts_dropTexts]
    exact sourceText_of_blank (by rfl)

mutual

theorem alike_dropTexts : ∀ n : Node, n.Built → n.HasNeatTexts → Alike n n.dropTexts
  | ⟨_, _, _, cs⟩, hbuilt, hneat =>
    ⟨⟨rfl, rfl⟩, fun hk => (sourceText_dropTexts hbuilt (hneat _ (.root _) hk)).symm,
      alikeChildren_dropTextsAmong _ cs hbuilt.children hneat.children⟩

theorem alikeChildren_dropTextsAmong (parent : Node) : ∀ cs : List Node, (∀ c ∈ cs, c.Built) →
    (∀ c ∈ cs, c.HasNeatTexts) → AlikeChildren Alike cs (dropTextsAmong cs) parent
  | [], _, _ => .nil
  | c :: cs, hbuilt, hneat => by
    obtain ⟨hc, hcs⟩ := List.forall_mem_cons.mp hbuilt
    obtain ⟨hc', hcs'⟩ := List.forall_mem_cons.mp hneat
    exact .like (alike_dropTexts c hc hc') (alikeChildren_dropTextsAmong parent cs hcs hcs')

end

end Node

namespace Session

/-- A tree that stores its texts gives the same answer as the tree in which only leaves have a text,
and it leaves the same log and the same names. -/
theorem step_dropTexts {n : Node} (hbuilt : n.Built) (hneat : n.HasNeatTexts) (s : Session)
    (target : Target) (ctx : Context) :
    s.step (.lower target ctx n.dropTexts) = s.step (.lower target ctx n) :=
  (Node.likeness_alike.step_eq (n.alike_dropTexts hbuilt hneat) s target ctx).symm

/-- A package whose name is a token, with a constant of the value `1 + 2`. -/
def storedTexts : Node :=
  let one : Node := .leaf (.other "INTEGER") ⟨5, 6⟩ "1"
  let plusTwo : Node := .branch (.other "tail") ⟨6, 8⟩
    [.leaf (.other "PLUS") ⟨6, 7⟩ "+", .leaf (.other "INTEGER") ⟨7, 8⟩ "2"]
  let constant : Node := .branch (.rule .constantDeclaration) ⟨2, 8⟩
    [.branch (.rule .identifierList) ⟨2, 3⟩ [.leaf (.rule .identifier) ⟨2, 3⟩ "c"],
      .leaf (.rule .subtypeIndication) ⟨3, 4⟩ "integer",
      .branch (.rule .expression) ⟨5, 8⟩ [one, plusTwo]]
  .branch (.rule .packageDeclaration) ⟨0, 9⟩
    [.branch (.rule .identifier) ⟨0, 1⟩ [.leaf (.other "IDENTIFIER") ⟨0, 1⟩ "p"],
      .branch (.rule .packageDeclarativePart) ⟨1, 9⟩ [constant]]

theorem storedTexts_dropped :
    storedTexts.Built ∧ storedTexts.HasNeatTexts ∧
      start.step (.lower .package ⟨⟨0⟩, false⟩ storedTexts.dropTexts) =
        start.step (.lower .package ⟨⟨0⟩, false⟩ storedTexts) := by
  have hbuilt : storedTexts.Built := by
    simp [storedTexts, Node.built_branch, Node.Built.leaf]
  have hneat : storedTexts.HasNeatTexts := by
    simp only [storedTexts, Node.hasNeatTexts_branch, Node.hasNeatTexts_leaf,
      Node.hasNeatLeaves_branch, Node.hasNeatLeaves_leaf, List.mem_cons, List.not_mem_nil, or_false,
      forall_eq_or_imp, forall_eq, ne_eq, List.cons_ne_self, not_false_eq_true, reduceCtorEq,
      and_true, and_self, true_and]
    decide
  exact ⟨hbuilt, hneat, step_dropTexts hbuilt hneat start .package ⟨⟨0⟩, false⟩⟩

end Session

end VhdlLowering
