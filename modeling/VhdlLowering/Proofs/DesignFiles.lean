import VhdlLowering.Proofs.Skeletons
import VhdlLowering.Proofs.Subtrees
import Mathlib.Algebra.GroupWithZero.Nat

/-!
# What becomes of the parts of a design file

Each part of a unit is a package that is lowered or something that is logged. Packages and entries
stand in the order of the parts, so together they are as many as the parts.
-/

namespace VhdlLowering

/-- The parts that belong to the context of a unit. -/
def Kind.isContext : Kind → Bool
  | .rule .contextClause | .rule .contextItem | .rule .libraryClause | .rule .useClause => true
  | _ => false

namespace Node

/-- A context clause counts by its items, any other part counts once. -/
def partCount (n : Node) : Nat := if n.kind = .rule .contextClause then n.phrases.length else 1

end Node

namespace DesignFile

open Session (GivesAlone)

/-- The packages that a part gives and the entries that it logs. A package is what it is by itself,
and of what it logs nothing belongs to the design file. -/
inductive PartGives (ctx : Context) : Node → List (Package String) × Log → Prop
  | contextClause {n : Node} (hkind : n.kind = .rule .contextClause) :
      PartGives ctx n ([], n.phrases.map (.ofNode "DesignFileParser.visitContext_item"))
  | contextItem {n : Node} (hkind : n.kind = .rule .contextItem ∨ n.kind = .rule .libraryClause ∨
      n.kind = .rule .useClause) :
      PartGives ctx n ([], [.ofNode "DesignFileParser.visitContext_item" n])
  | package {n u : Node} {p : Package String} {log : Log} (hcontext : n.kind.isContext = false)
      (hu : n.Unwraps u) (hkind : u.kind = .rule .packageDeclaration)
      (hp : GivesAlone .package ctx u (.package p) log) (hlog : log.ofDesignFile = []) :
      PartGives ctx n ([p], log)
  | other {n u : Node} (hcontext : n.kind.isContext = false) (hu : n.Unwraps u)
      (hkind : u.kind ≠ .rule .packageDeclaration) :
      PartGives ctx n ([], [.ofNode "DesignFileParser.visitLibrary_unit" u])

end DesignFile

section Counting

variable {ctx : Context}

theorem Log.length_ofDesignFile_map {label : String} (h : isDesignFileLabel label = true)
    (ns : List Node) : (ofDesignFile (ns.map (Skipped.ofNode label))).length = ns.length := by
  rw [ofDesignFile_map_ofNode, if_pos h, List.length_map]

theorem Node.partCount_of_ne {n : Node} (h : n.kind ≠ .rule .contextClause) : n.partCount = 1 :=
  if_neg h

theorem Kind.ne_contextClause {k : Kind} (h : k.isContext = false) :
    k ≠ .rule .contextClause := by
  rintro rfl
  cases h

theorem DesignFile.PartGives.count {n : Node} {block : List (Package String) × Log}
    (h : PartGives ctx n block) :
    block.1.length + block.2.ofDesignFile.length = n.partCount := by
  cases h with
  | contextClause hkind =>
    rw [Node.partCount, if_pos hkind, List.length_nil, Nat.zero_add]
    exact Log.length_ofDesignFile_map (by decide) n.phrases
  | contextItem hkind =>
    have hclause : n.kind ≠ .rule .contextClause := by
      intro hclause
      rcases hkind with hkind | hkind | hkind <;> cases hclause.symm.trans hkind
    rw [Node.partCount_of_ne hclause]
    rfl
  | package hcontext _ _ _ hlog =>
    rw [Node.partCount_of_ne (Kind.ne_contextClause hcontext), hlog]
    rfl
  | other hcontext _ _ =>
    rw [Node.partCount_of_ne (Kind.ne_contextClause hcontext)]
    rfl

theorem DesignFile.count_parts {parts : List Node} {blocks : List (List (Package String) × Log)}
    (h : List.Forall₂ (PartGives ctx) parts blocks) :
    (blocks.map Prod.fst).flatten.length +
        (Log.ofDesignFile (blocks.map Prod.snd).flatten).length =
      (parts.map Node.partCount).sum := by
  induction h with
  | nil => rfl
  | cons hpart _ ih =>
    have hcount := hpart.count
    simp only [List.map_cons, List.flatten_cons, List.length_append, Log.ofDesignFile_append,
      List.sum_cons]
    omega

end Counting

section Lowering

variable {ctx : Context} {n : Node}

theorem Package.ofDesignFile_eq_nil {p : Package String} {log : Log}
    (h : (Package.ofNode ctx n : Lowering (Package String)).Yields p log) :
    log.ofDesignFile = [] := by
  obtain ⟨file, hierarchyOnly⟩ := ctx
  cases hierarchyOnly with
  | false =>
    obtain ⟨-, rfl⟩ := accounted_of_yields n h
    exact n.ofDesignFile_packageReports
  | true =>
    rw [ofNode] at h
    simp only [if_true, Lowering.yields_bind, Lowering.yields_read, Lowering.yields_pure] at h
    obtain ⟨_, _, _, ⟨-, rfl⟩, ⟨_, _, _, ⟨-, rfl⟩, ⟨-, rfl⟩, rfl⟩, rfl⟩ := h
    rfl

theorem DesignFile.partGives_of_yields {ps : List (Package String)} {log : Log}
    (h : (lowerPart ctx n : Lowering (List (Package String))).Yields ps log) :
    PartGives ctx n (ps, log) := by
  have hskip {x : Lowering Unit} {entries : Log}
      (hx : ∀ {u : Unit} {l : Log}, x.Yields u l → l = entries)
      (h : (x >>= fun _ => pure [] : Lowering (List (Package String))).Yields ps log) :
      ps = [] ∧ log = entries := by
    obtain ⟨_, l, _, hl, hrest, rfl⟩ := Lowering.yields_bind.mp h
    obtain ⟨rfl, rfl⟩ := Lowering.yields_pure.mp hrest
    exact ⟨rfl, by rw [hx hl, List.append_nil]⟩
  unfold lowerPart at h
  split at h
  · rename_i hkind
    obtain ⟨rfl, rfl⟩ := hskip Lowering.yields_forM_skipAs.mp h
    exact .contextClause hkind
  · rename_i hkind
    obtain ⟨rfl, rfl⟩ := hskip Lowering.yields_skipAs.mp h
    exact .contextItem (.inl hkind)
  · rename_i hkind
    obtain ⟨rfl, rfl⟩ := hskip Lowering.yields_skipAs.mp h
    exact .contextItem (.inr (.inl hkind))
  · rename_i hkind
    obtain ⟨rfl, rfl⟩ := hskip Lowering.yields_skipAs.mp h
    exact .contextItem (.inr (.inr hkind))
  · rename_i hclause hitem hlibrary huse
    have hcontext : n.kind.isContext = false := by
      unfold Kind.isContext
      split <;> simp_all
    split at h
    · rename_i hkind
      simp only [Lowering.yields_bind, Lowering.yields_pure] at h
      obtain ⟨p, log, _, hp, ⟨rfl, rfl⟩, rfl⟩ := h
      rw [List.append_nil]
      exact .package hcontext n.unwraps_libraryUnit hkind (Session.givesAlone_package_iff.mpr hp)
        (Package.ofDesignFile_eq_nil hp)
    · rename_i hkind
      obtain ⟨rfl, rfl⟩ := hskip Lowering.yields_skipAs.mp h
      exact .other hcontext n.unwraps_libraryUnit hkind

theorem DesignFile.yields_lower {ps : List (Package String)} {log : Log}
    (h : (lower ctx n : Lowering (List (Package String))).Yields ps log) :
    ∃ blocks, List.Forall₂ (PartGives ctx) n.unitParts blocks ∧
      ps = (blocks.map Prod.fst).flatten ∧ log = (blocks.map Prod.snd).flatten := by
  simp only [lower, Lowering.yields_bind, Lowering.yields_read, Lowering.yields_mapM,
    Lowering.yields_pure] at h
  obtain ⟨_, _, _, ⟨-, rfl⟩, ⟨_, _, _, ⟨blocks, hblocks, rfl, rfl⟩, ⟨rfl, rfl⟩, rfl⟩, rfl⟩ := h
  exact ⟨blocks, hblocks.imp fun _ _ => partGives_of_yields, rfl, by simp⟩

end Lowering

namespace Session

/-- The packages of a design file and the entries it logs come block by block from its parts, in
order, and together packages and entries are as many as the parts. -/
theorem parts_accounted {s : Session} {ctx : Context} {n : Node} {p : Product Symbol}
    (h : (s.step (.lower .designFile ctx n)).1 = .ok (some p)) :
    ∃ blocks : List (List (Package String) × Log),
      let packages := (blocks.map Prod.fst).flatten
      let entries := (blocks.map Prod.snd).flatten
      List.Forall₂ (DesignFile.PartGives ctx) n.unitParts blocks ∧
      p.map (s.step (.lower .designFile ctx n)).2.names.resolve? =
        .packages (packages.map (Package.map some)) ∧
      (s.step (.lower .designFile ctx n)).2.log = s.log ++ entries ∧
      packages.length + (Log.ofDesignFile entries).length =
        (n.unitParts.map Node.partCount).sum := by
  obtain ⟨product, entries, hproduct, hnames, hlog⟩ := yields_of_step h
  rw [Target.lower, Lowering.yields_map] at hproduct
  obtain ⟨ps, hps, rfl⟩ := hproduct
  obtain ⟨blocks, hblocks, rfl, rfl⟩ := DesignFile.yields_lower hps
  exact ⟨blocks, hblocks, hnames, hlog, DesignFile.count_parts hblocks⟩

/-- A file with tokens, a context clause of two items, a package in two wrappers, a wrapper around a
token, an architecture in a wrapper and a use clause by itself. -/
def mixedUnits : Node :=
  let token (s : String) : Node := .leaf (.other "SEMI") ⟨0, 1⟩ s
  let context : Node := .branch (.rule .contextClause) ⟨1, 4⟩
    [.leaf (.rule .libraryClause) ⟨1, 2⟩ "library", token ";", .leaf (.rule .useClause) ⟨3, 4⟩ "use"]
  let package : Node := .branch (.rule .packageDeclaration) ⟨4, 9⟩
    [.leaf (.rule .identifier) ⟨4, 5⟩ "p", .branch (.rule .packageDeclarativePart) ⟨5, 8⟩
      [.leaf (.rule .aliasDeclaration) ⟨5, 6⟩ "alias"]]
  let primary : Node := .branch (.rule .libraryUnit) ⟨4, 9⟩
    [token ";", .branch (.rule .primaryUnit) ⟨4, 9⟩ [package]]
  let secondary : Node := .branch (.rule .secondaryUnit) ⟨10, 12⟩
    [.leaf (.other "architecture_body") ⟨10, 12⟩ "architecture", package]
  .branch (.rule .designFile) ⟨0, 20⟩
    [.branch (.rule .designUnit) ⟨1, 9⟩ [context, token ";", primary], token ";", secondary,
      .branch (.rule .libraryUnit) ⟨12, 13⟩ [token ";"], .leaf (.rule .useClause) ⟨14, 15⟩ "use"]

theorem mixedUnits_accounted :
    ∃ p, (start.step (.lower .designFile ⟨⟨0⟩, false⟩ mixedUnits)).1 = .ok (some p) ∧
      ∃ blocks : List (List (Package String) × Log),
        let packages := (blocks.map Prod.fst).flatten
        let entries := (blocks.map Prod.snd).flatten
        List.Forall₂ (DesignFile.PartGives ⟨⟨0⟩, false⟩) mixedUnits.unitParts blocks ∧
        p.map (start.step (.lower .designFile ⟨⟨0⟩, false⟩ mixedUnits)).2.names.resolve? =
          .packages (packages.map (Package.map some)) ∧
        (start.step (.lower .designFile ⟨⟨0⟩, false⟩ mixedUnits)).2.log = start.log ++ entries ∧
        packages.length + (Log.ofDesignFile entries).length =
          (mixedUnits.unitParts.map Node.partCount).sum := by
  obtain ⟨p, hp⟩ : ∃ p,
      (start.step (.lower .designFile ⟨⟨0⟩, false⟩ mixedUnits)).1 = .ok (some p) :=
    step_succeeds_iff.mpr (by decide +kernel)
  exact ⟨p, hp, parts_accounted hp⟩

example : (start.step (.lower .designFile ⟨⟨0⟩, false⟩ mixedUnits)).2.log.map Skipped.span =
    [⟨1, 2⟩, ⟨3, 4⟩, ⟨5, 6⟩, ⟨10, 12⟩, ⟨12, 13⟩, ⟨14, 15⟩] := by
  decide +kernel

end Session

end VhdlLowering
