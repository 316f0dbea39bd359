import Mathlib.Logic.Relation
import VhdlLowering.Proofs.WellFormed
import VhdlLowering.Syntax.Preorder

/-!
# Normal form of source texts

A source text is trimmed, and it is empty only if there is nothing but white space in the text of
the node and in its leaves. A node that stores no text has the texts of its leaves, one space
between two, and it does not matter how inner nodes group them.
-/

namespace VhdlLowering

namespace Text

/-- A text of white space only. -/
def AllBlank (s : String) : Prop := ∀ c ∈ s.toList, isBlank c = true

instance : DecidablePred AllBlank := fun s => List.decidableBAll _ s.toList

theorem trimChars_eq_nil_iff {cs : List Char} :
    trimChars cs = [] ↔ ∀ c ∈ cs, isBlank c = true := by
  have htrim : trimChars cs = (cs.dropWhile isBlank).rdropWhile isBlank := rfl
  rw [htrim, List.rdropWhile_eq_nil_iff]
  constructor
  · intro h
    refine List.dropWhile_eq_nil_iff.mp ?_
    -- What the cut on the left leaves over does not begin with white space.
    by_contra hne
    have hfirst := List.head_dropWhile_not isBlank hne
    rw [h _ (List.head_mem hne)] at hfirst
    cases hfirst
  · intro h
    rw [List.dropWhile_eq_nil_iff.mpr h]
    exact List.forall_mem_nil _

theorem trim_eq_empty_iff {s : String} : trim s = "" ↔ AllBlank s := by
  rw [← String.toList_inj, toList_trim]
  exact trimChars_eq_nil_iff

theorem intercalate_eq_empty_iff {ts : List String} (h : ∀ t ∈ ts, IsNeat t) :
    String.intercalate " " ts = "" ↔ ts = [] := by
  refine ⟨fun hempty => ?_, fun hnil => by rw [hnil]; rfl⟩
  by_contra hne
  exact (isNeat_intercalate hne h).1 hempty

end Text

namespace Node

theorem mem_leaves_iff {l n : Node} : l ∈ n.leaves ↔ l.Within n ∧ l.children = [] := by
  rw [leaves, List.mem_filter, mem_preorder_iff, List.isEmpty_iff]

mutual

theorem leafTexts_eq : ∀ n : Node,
    n.leafTexts = (n.leaves.map trimmedText).filter fun t => t ≠ ""
  | ⟨_, _, text, []⟩ => by
    by_cases hblank : Text.trim text = "" <;>
      simp [leafTexts, leaves, preorder, preorderOf, trimmedText, hblank]
  | ⟨_, _, _, c :: cs⟩ => leafTextsOf_eq (c :: cs)

theorem leafTextsOf_eq : ∀ cs : List Node,
    leafTextsOf cs = (((preorderOf cs).filter fun m => m.children.isEmpty).map trimmedText).filter
      fun t => t ≠ ""
  | [] => rfl
  | c :: cs => by
    rw [leafTextsOf, leafTexts_eq c, leafTextsOf_eq cs, preorderOf, List.filter_append,
      List.map_append, List.filter_append, leaves]

end

/-- A node without any text: its own text and the texts of its leaves are blank. -/
def IsBlank (n : Node) : Prop :=
  Text.AllBlank n.text ∧ ∀ l : Node, l.Within n → l.children = [] → Text.AllBlank l.text

theorem sourceText_eq_empty_iff {n : Node} : n.sourceText = "" ↔ n.IsBlank := by
  unfold IsBlank
  simp only [← Text.trim_eq_empty_iff]
  by_cases hown : n.trimmedText = ""
  · have hleaves : n.leafTexts = [] ↔ ∀ l ∈ n.leaves, l.trimmedText = "" := by
      simp [leafTexts_eq]
    rw [sourceText_of_blank hown, Text.intercalate_eq_empty_iff n.isNeat_of_mem_leafTexts, hleaves]
    simp only [mem_leaves_iff, and_imp]
    exact (and_iff_right hown).symm
  · rw [sourceText_of_ne hown]
    exact iff_of_false hown fun h => hown h.1

/-- One list of children takes the place of another one. Consecutive children may be grouped under a
new node, blank leaves may be put between children, inner nodes may bear any label and any text, and
each of this may be done in the children of a child. -/
inductive Regroups : List Node → List Node → Prop
  | group (before run after : List Node) (kind : Kind) (span : Span) (text : String)
      (hrun : run ≠ []) :
      Regroups (before ++ run ++ after) (before ++ ⟨kind, span, text, run⟩ :: after)
  | blank (before after : List Node) {c : Node} (hne : before ++ after ≠ [])
      (hleaf : c.children = []) (hblank : Text.AllBlank c.text) :
      Regroups (before ++ after) (before ++ c :: after)
  | relabel (before after : List Node) {c : Node} (kind : Kind) (span : Span) (text : String)
      (hinner : c.children ≠ []) :
      Regroups (before ++ c :: after) (before ++ ⟨kind, span, text, c.children⟩ :: after)
  | inChild (before after : List Node) {c : Node} {cs : List Node} (h : Regroups c.children cs) :
      Regroups (before ++ c :: after) (before ++ { c with children := cs } :: after)

section Regroups

variable {cs ds : List Node}

theorem Regroups.ne_nil (h : Regroups cs ds) : cs ≠ [] ∧ ds ≠ [] := by
  cases h with
  | group before run after kind span text hrun => simp [hrun]
  | blank before after hne => simp [hne]
  | relabel => simp
  | inChild => simp

/-- A blank leaf has no text, as if it were an inner node. -/
theorem leafTexts_of_blank {n : Node} (h : n.trimmedText = "") :
    n.leafTexts = n.children.flatMap leafTexts := by
  by_cases hchildren : n.children = []
  · obtain ⟨kind, span, text, cs⟩ := n
    cases hchildren
    have htext : Text.trim text = "" := h
    simp [leafTexts, htext]
  · exact leafTexts_of_children hchildren

/-- The leaves keep their texts and their order. -/
theorem Regroups.leafTexts_eq (h : Regroups cs ds) :
    cs.flatMap leafTexts = ds.flatMap leafTexts := by
  induction h with
  | group before run after kind span text hrun =>
    rw [List.flatMap_append, List.flatMap_append, List.flatMap_append, List.flatMap_cons,
      leafTexts_of_children hrun, List.append_assoc]
  | @blank before after c hne hleaf hblank =>
    have hnone : c.leafTexts = [] := by
      rw [leafTexts_of_blank (Text.trim_eq_empty_iff.mpr hblank), hleaf, List.flatMap_nil]
    rw [List.flatMap_append, List.flatMap_append, List.flatMap_cons, hnone, List.nil_append]
  | @relabel before after c kind span text hinner =>
    have hnew : leafTexts ⟨kind, span, text, c.children⟩ = c.children.flatMap leafTexts :=
      leafTexts_of_children hinner
    rw [List.flatMap_append, List.flatMap_append, List.flatMap_cons, List.flatMap_cons,
      leafTexts_of_children hinner, hnew]
  | inChild before after h ih =>
    obtain ⟨hold, hnew⟩ := h.ne_nil
    rw [List.flatMap_append, List.flatMap_append, List.flatMap_cons, List.flatMap_cons,
      leafTexts_of_children hold, leafTexts_of_children hnew, ih]

theorem leafTexts_eq_of_eqvGen (h : Relation.EqvGen Regroups cs ds) :
    cs.flatMap leafTexts = ds.flatMap leafTexts :=
  congrArg (Quot.lift (fun cs => cs.flatMap leafTexts) fun _ _ h => h.leafTexts_eq)
    (Quot.eqvGen_sound h)

end Regroups

/-- The source text depends on the text of the node and on the texts of the leaves below it. -/
theorem sourceText_withChildren {n : Node} {cs : List Node}
    (h : n.children.flatMap leafTexts = cs.flatMap leafTexts) :
    sourceText { n with children := cs } = n.sourceText := by
  by_cases hown : n.trimmedText = ""
  · have hnew : trimmedText { n with children := cs } = "" := hown
    rw [sourceText_of_blank hown, sourceText_of_blank hnew, leafTexts_of_blank hown,
      leafTexts_of_blank hnew, h]
  · rw [sourceText_of_ne hown]
    exact sourceText_of_ne hown

/-- A source text is trimmed; it is empty exactly if the text of the node and all its leaves are
blank; without a text of its own the node has the texts of its leaves that are not blank, in source
order, one space between two; and the text stays if the children are regrouped at any depth. -/
theorem sourceText_normal (n : Node) :
    Text.IsTrimmed n.sourceText ∧
    (n.sourceText = "" ↔ n.IsBlank) ∧
    (Text.AllBlank n.text → n.sourceText =
      String.intercalate " " ((n.leaves.map trimmedText).filter fun t => t ≠ "")) ∧
    ∀ cs : List Node, Relation.EqvGen Regroups n.children cs →
      sourceText { n with children := cs } = n.sourceText := by
  refine ⟨n.isTrimmed_sourceText, sourceText_eq_empty_iff, fun hblank => ?_, fun cs h => ?_⟩
  · rw [sourceText_of_blank (Text.trim_eq_empty_iff.mpr hblank), leafTexts_eq]
  · exact sourceText_withChildren (leafTexts_eq_of_eqvGen h)

/-- A name without a text of its own, in two words. -/
def spacedName : Node :=
  ⟨.rule .identifier, ⟨0, 9⟩, " ",
    [.leaf (.other "WORD") ⟨0, 4⟩ " std\t", .leaf (.other "WORD") ⟨4, 9⟩ "logic"]⟩

/-- The first word and a blank leaf behind it stand under an inner node with a text. -/
def groupedName : Node :=
  { spacedName with children :=
    [⟨.other "group", ⟨0, 4⟩, "ieee",
      [.leaf (.other "WORD") ⟨0, 4⟩ " std\t", .leaf (.other "SPACE") ⟨4, 4⟩ "\n"]⟩,
      .leaf (.other "WORD") ⟨4, 9⟩ "logic"] }

theorem groupedName_regroups :
    Relation.EqvGen Regroups spacedName.children groupedName.children := by
  let word : Node := .leaf (.other "WORD") ⟨0, 4⟩ " std\t"
  let rest : List Node := [.leaf (.other "WORD") ⟨4, 9⟩ "logic"]
  have hgroup := Regroups.group [] [word] rest (.other "group") ⟨0, 4⟩ "ieee" (by simp)
  have hblank : Regroups [word] [word, .leaf (.other "SPACE") ⟨4, 4⟩ "\n"] :=
    .blank [word] [] (by simp) rfl (by decide)
  have hbelow : Regroups (⟨.other "group", ⟨0, 4⟩, "ieee", [word]⟩ :: rest) groupedName.children :=
    .inChild [] rest hblank
  exact .trans _ _ _ (.rel _ _ hgroup) (.rel _ _ hbelow)

theorem spacedName_normal :
    Text.AllBlank spacedName.text ∧ spacedName.sourceText = "std logic" ∧
      Relation.EqvGen Regroups spacedName.children groupedName.children ∧
      groupedName.sourceText = spacedName.sourceText := by
  obtain ⟨-, -, hleaves, hgroups⟩ := sourceText_normal spacedName
  have hblank : Text.AllBlank spacedName.text := by decide
  exact ⟨hblank, (hleaves hblank).trans (by decide +kernel), groupedName_regroups,
    hgroups _ groupedName_regroups⟩

end Node
end VhdlLowering
