import VhdlLowering.Proofs.Readers

/-!
# Walking through packages

Lowering a package lowers its items one after the other. Facts about all packages follow by
induction on the packages that are nested in them as items.
-/

namespace VhdlLowering

/-- Items of packages are smaller, so a fact about the nested packages carries over to all. -/
theorem Node.packageInduction {P : Node → Prop}
    (h : ∀ n, (∀ c ∈ n.packageItems, P (DeclarativeItem.classify c).node) → P n) (n : Node) :
    P n := by
  induction hk : n.size using Nat.strongRecOn generalizing n with
  | ind k ih =>
    refine h n fun c hc => ih _ ?_ _ rfl
    have hitem := DeclarativeItem.size_classify_le c
    have hsum := size_le_sizes_of_mem hc
    have hpart := n.sizes_packageItems_lt
    omega

section Walk

variable {ν : Type} {r m : Type → Type} [MonadNaming ν r] [MonadLowering r m] [LawfulMonad m]

theorem Package.declarationsOf_eq_mapM (ctx : Context) (cs : List Node) :
    (Package.declarationsOf ctx cs : m (List (Declaration ν))) =
      List.flatten <$> cs.mapM fun c => (DeclarativeItem.classify c).lower ctx := by
  induction cs with
  | nil => rw [Package.declarationsOf, List.mapM_nil, map_pure, List.flatten_nil]
  | cons c cs ih => simp [Package.declarationsOf, ih]

end Walk

section Yields

variable {file : FileId} {n : Node} {log : Log}

/-- The log of a package without items: its generic clause and its generic map. -/
def Node.headerReports (n : Node) : Log :=
  match n.child? (.rule .packageHeader) with
  | none => []
  | some header =>
    ((header.child? (.rule .genericClause)).map
      (Skipped.ofNode "PackageHeaderParser.visitGeneric_clause")).toList ++
    ((header.child? (.rule .genericMapAspect)).map
      (Skipped.ofNode "PackageHeaderParser.visitGeneric_map_aspect")).toList

theorem Node.yields_skipHeader {u : Unit} :
    (n.skipHeader : Lowering Unit).Yields u log ↔ log = n.headerReports := by
  have hchild (o : Option Node) (label : String) (u : Unit) (log : Log) :
      (o.forM (skipAs label) : Lowering Unit).Yields u log ↔
        log = (o.map (Skipped.ofNode label)).toList := by
    cases o with
    | none => exact Lowering.yields_pure.trans (by simp)
    | some c => exact Lowering.yields_skipAs
  unfold skipHeader headerReports
  cases n.child? (.rule .packageHeader) with
  | none => exact Lowering.yields_pure.trans (by simp)
  | some header => simp only [Lowering.yields_bind, hchild, exists_eq_left, exists_and_left,
      exists_const]

/-- What lowering a package gives: a block of declarations and some entries for each item. -/
theorem Package.yields_ofNode {p : Package String} :
    (Package.ofNode ⟨file, false⟩ n : Lowering (Package String)).Yields p log ↔
      n.kind = .rule .packageDeclaration ∧ (n.name : Naming String).result = .ok p.name ∧
      p.declarationsOnly = true ∧ p.span = n.fileSpan file ∧
      ∃ blocks : List (List (Declaration String) × Log),
        List.Forall₂ (fun c block =>
          ((DeclarativeItem.classify c).lower ⟨file, false⟩ : Lowering _).Yields block.1 block.2)
          n.packageItems blocks ∧
        p.declarations = (blocks.map Prod.fst).flatten ∧
        log = n.headerReports ++ (blocks.map Prod.snd).flatten := by
  rw [Package.ofNode]
  simp only [Bool.false_eq_true, if_false, Lowering.yields_bind, Lowering.yields_read,
    Node.result_ensure_eq_ok, Node.yields_skipHeader, declarationsOf_eq_mapM, Lowering.yields_map,
    Lowering.yields_mapM, Lowering.yields_pure]
  constructor
  · intro h
    rcases h with ⟨-, _, _, ⟨hkind, rfl⟩, ⟨name, _, _, ⟨hname, rfl⟩, ⟨-, _, _, rfl, ⟨_, _, _,
      ⟨_, ⟨blocks, hblocks, rfl, rfl⟩, rfl⟩, ⟨rfl, rfl⟩, rfl⟩, rfl⟩, rfl⟩, rfl⟩
    exact ⟨hkind, hname, rfl, rfl, blocks, hblocks, rfl, by simp⟩
  · intro h
    rcases h with ⟨hkind, hname, honly, hspan, blocks, hblocks, hds, rfl⟩
    obtain ⟨name, only, ds, span⟩ := p
    cases honly
    cases hspan
    cases hds
    exact ⟨(), [], _, ⟨hkind, rfl⟩, ⟨name, [], _, ⟨hname, rfl⟩, ⟨(), _, _, rfl, ⟨_, _, [],
      ⟨_, ⟨blocks, hblocks, rfl, rfl⟩, rfl⟩, ⟨rfl, rfl⟩, rfl⟩, rfl⟩, rfl⟩, by simp⟩

end Yields

end VhdlLowering
