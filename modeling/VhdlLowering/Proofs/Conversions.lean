import Mathlib.Data.List.Induction
import Mathlib.Data.List.Nodup
import VhdlLowering.Conversion
import VhdlLowering.Proofs.Steps

/-!
# The report of a conversion

The pieces that a conversion writes make up the report, which is here given as a text. Nothing is
written before the tree is lowered, and only the refusal of skipped constructs comes after writing.
All this holds however diagnostics are rendered.
-/

namespace VhdlLowering

namespace Log

theorem nodup_eraseDups (ls : List String) : ls.eraseDups.Nodup := by
  induction ls using List.reverseRecOn with
  | nil => exact List.nodup_nil
  | append_singleton ls l ih =>
    rw [eraseDups_concat]
    split
    · exact ih
    · rename_i h
      exact List.nodup_append_comm.mpr (List.nodup_cons.mpr ⟨h, ih⟩)

/-- Counting one more occurrence of a label, new or not, where each label is counted once. -/
theorem tally_map {l : String} {ls : List String} (hls : ls.Nodup) {f : String → Nat}
    (hl : l ∉ ls → f l = 0) :
    tally l (ls.map fun k => (k, f k)) =
      (if l ∈ ls then ls else ls ++ [l]).map fun k => (k, if k = l then f k + 1 else f k) := by
  induction ls with
  | nil => simp [tally, hl]
  | cons k ks ih =>
    obtain ⟨hk, hks⟩ := List.nodup_cons.mp hls
    by_cases h : k = l
    · subst h
      have hothers : ∀ j ∈ ks, (j, f j) = (j, if j = k then f j + 1 else f j) := by
        intro j hj
        rw [if_neg (ne_of_mem_of_not_mem hj hk)]
      simp [tally, List.map_congr_left hothers]
    · have hmem : l ∈ k :: ks ↔ l ∈ ks := by simp [Ne.symm h]
      have hrest := ih hks fun hnot => hl (hmem.not.mpr hnot)
      by_cases hin : l ∈ ks <;> simp [tally, h, hrest, hin, Ne.symm h]

theorem summary_concat (log : Log) (s : Skipped) :
    summary (log ++ [s]) = tally s.label (summary log) := by
  simp [summary]

/-- The labels in the order in which they occur first, each with the number of its entries. -/
theorem summary_eq (log : Log) :
    summary log = (log.map Skipped.label).eraseDups.map fun l =>
      (l, (log.map Skipped.label).count l) := by
  induction log using List.reverseRecOn with
  | nil => rfl
  | append_singleton log s ih =>
    have hnew : s.label ∉ (log.map Skipped.label).eraseDups →
        (log.map Skipped.label).count s.label = 0 := by
      rw [List.mem_eraseDups]
      exact List.count_eq_zero.mpr
    rw [summary_concat, ih, tally_map (nodup_eraseDups _) hnew, ← eraseDups_concat, List.map_append]
    refine List.map_congr_left fun k _ => ?_
    by_cases hk : s.label = k
    · simp [hk]
    · simp [hk, Ne.symm hk]

end Log

namespace Conversion

theorem write_empty : write "" = pure () := by
  funext output
  exact congrArg (EStateM.Result.ok ()) String.append_empty

theorem write_write (s t : String) : (do write s; write t) = write (s ++ t) := by
  funext output
  exact congrArg (EStateM.Result.ok ()) String.append_assoc

/-- Texts that are written one after the other are written as one. -/
theorem forM_eq_write {α : Type} {f : α → WriterM Unit} {g : α → String}
    (h : ∀ a, f a = write (g a)) (as : List α) :
    as.forM f = write (String.join (as.map g)) := by
  induction as with
  | nil => exact write_empty.symm
  | cons a as ih =>
    rw [List.map_cons, String.join_cons, ← write_write, ← ih, ← h]
    rfl

/-- The heading and the outlines. -/
def outlines (path : String) (packages : List (Package String)) : String :=
  "Lowered " ++ toString packages.length ++ " package(s) from " ++ path ++ "\n" ++
  String.join (packages.map fun p => "\n" ++ Package.outline p)

/-- The number of skipped constructs, in all and by label, labels in the order in which they occur
first. -/
def summary (log : Log) : String :=
  let labels := log.map Skipped.label
  "\nUnsupported " ++ toString log.length ++ " construct(s) skipped:\n" ++
  String.join (labels.eraseDups.map fun l => "  " ++ column (labels.count l) ++ "  " ++ l ++ "\n")

/-- Every skipped construct on its own. -/
def details (render : Diagnostic → String) (log : Log) : String :=
  String.join (log.map fun s => "\n" ++ render s.diagnostic)

/-- The report on lowered packages. -/
def report (render : Diagnostic → String) (verbose : Bool) (path : String)
    (packages : List (Package String)) (log : Log) : String :=
  outlines path packages ++ (if log = [] then success else summary log) ++
  if verbose then details render log else ""

theorem writeOutlines_eq (path : String) (packages : List (Package String)) :
    writeOutlines path packages = write (outlines path packages) := by
  rw [writeOutlines, forM_eq_write fun p => write_write _ _, write_write, outlines]

theorem writeSummary_eq (log : Log) : writeSummary log = write (summary log) := by
  rw [writeSummary, forM_eq_write fun _ => rfl, Log.summary_eq, List.map_map, write_write]
  rfl

theorem writeDetails_eq (render : Diagnostic → String) (log : Log) :
    writeDetails render log = write (details render log) :=
  forM_eq_write (fun _ => write_write _ _) log

theorem bind_write {α : Type} (s output : String) (x : WriterM α) :
    (write s >>= fun _ => x).run output = x.run (output ++ s) := rfl

@[simp] theorem run_write (s output : String) : (write s).run output = .ok () (output ++ s) := rfl

/-- The report is written as a whole before skipped constructs are refused. -/
theorem of_writeReport (render : Diagnostic → String) (settings : Settings) (path : String)
    (packages : List (Package String)) (log : Log) :
    Outcome.of (writeReport render settings path packages log) =
      ⟨report render settings.verbose path packages log,
        if settings.denyUnsupported ∧ log ≠ [] then some (.denied path log.length) else none⟩ := by
  rw [writeReport, writeOutlines_eq, writeSummary_eq, writeDetails_eq, Outcome.of, bind_write]
  cases log with
  | nil => simp [report, details]
  | cons s log =>
    -- What may follow the summary is written before the only step that can fail.
    simp only [List.isEmpty_cons, Bool.false_eq_true, if_false, bind_write]
    cases hverbose : settings.verbose <;> cases hdeny : settings.denyUnsupported <;>
      simp [report]

/-- Lowering a design file alone, in terms of the run of its lowering. -/
theorem alone_designFile (ctx : Context) (root : Node) :
    (Session.Step.lower .designFile ctx root).alone =
      match (DesignFile.lower ctx root : SessionM (List (Package Symbol))).run .start with
      | .ok packages s => (.ok (some (.packages packages)), s)
      | .error defect s => (.error defect, s) := by
  rw [Session.Step.alone, Session.step, Target.lower, map_eq_pure_bind,
    EStateM.run_bind]
  cases (DesignFile.lower ctx root : SessionM (List (Package Symbol))).run .start <;> rfl

section Tree

variable {settings : Settings} {root : Node}

theorem lowerTree_of_givesAlone {packages : List (Package String)} {log : Log}
    (h : Session.GivesAlone .designFile ⟨⟨0⟩, settings.hierarchyOnly⟩ root (.packages packages) log)
    (path : String) : lowerTree settings path root = pure (packages, log) := by
  obtain ⟨hpackages, hlog⟩ := h
  have hnames := hpackages.map_nameOf
  rw [alone_designFile] at hnames hlog
  rw [lowerTree]
  cases hrun : (DesignFile.lower ⟨⟨0⟩, settings.hierarchyOnly⟩ root :
      SessionM (List (Package Symbol))).run .start with
  | error defect s =>
    rw [hrun] at hnames
    cases hnames
  | ok ps s =>
    rw [hrun] at hnames hlog
    cases hnames
    cases hlog
    rfl

theorem lowerTree_of_defect {defect : Defect}
    (h : (Session.Step.lower .designFile ⟨⟨0⟩, settings.hierarchyOnly⟩ root).alone.1 =
      .error defect) (path : String) :
    lowerTree settings path root = throw (.defective path defect) := by
  rw [alone_designFile] at h
  rw [lowerTree]
  cases hrun : (DesignFile.lower ⟨⟨0⟩, settings.hierarchyOnly⟩ root :
      SessionM (List (Package Symbol))).run .start with
  | error defect s =>
    rw [hrun] at h
    cases h
    rfl
  | ok ps s =>
    rw [hrun] at h
    cases h

end Tree

/-- The file at a path is the tree of a design file with these packages, and `log` is skipped. -/
def Lowers (d : Directory) (hierarchyOnly : Bool) (path : String)
    (packages : List (Package String)) (log : Log) : Prop :=
  ∃ document root, d.read? path = some document ∧ Node.ofJson document = .ok root ∧
    Session.GivesAlone .designFile ⟨⟨0⟩, hierarchyOnly⟩ root (.packages packages) log

/-- The file at a path is not read, or it is no tree, or its tree has a defect. -/
inductive Refuses (d : Directory) (hierarchyOnly : Bool) (path : String) : Failure → Prop where
  | unreadable : d.read? path = none → Refuses d hierarchyOnly path (.unreadable path)
  | malformed {document : String} {report : Json.Report} : d.read? path = some document →
      Node.ofJson document = .error report → Refuses d hierarchyOnly path (.malformed path report)
  | defective {document : String} {root : Node} {defect : Defect} :
      d.read? path = some document → Node.ofJson document = .ok root →
      (Session.Step.lower .designFile ⟨⟨0⟩, hierarchyOnly⟩ root).alone.1 = .error defect →
      Refuses d hierarchyOnly path (.defective path defect)

section Outcomes

variable {render : Diagnostic → String} {d : Directory} {settings : Settings} {path : String}

theorem run_of_lowers {packages : List (Package String)} {log : Log}
    (h : Lowers d settings.hierarchyOnly path packages log) :
    run render d settings path =
      ⟨report render settings.verbose path packages log,
        if settings.denyUnsupported ∧ log ≠ [] then some (.denied path log.length) else none⟩ := by
  obtain ⟨document, root, hdocument, hroot, halone⟩ := h
  simp only [run, hdocument, hroot, pure_bind, lowerTree_of_givesAlone halone, of_writeReport]

/-- Nothing is written before the tree is lowered. -/
theorem run_of_refuses {failure : Failure} (h : Refuses d settings.hierarchyOnly path failure) :
    run render d settings path = ⟨"", some failure⟩ := by
  cases h with
  | unreadable hpath =>
    simp only [run, hpath]
    rfl
  | malformed hdocument hroot =>
    simp only [run, hdocument, hroot]
    rfl
  | defective hdocument hroot hdefect =>
    simp only [run, hdocument, hroot, pure_bind, lowerTree_of_defect hdefect]
    rfl

theorem lowers_or_refuses (d : Directory) (hierarchyOnly : Bool) (path : String) :
    (∃ packages log, Lowers d hierarchyOnly path packages log) ∨
      ∃ failure, Refuses d hierarchyOnly path failure := by
  cases hdocument : d.read? path with
  | none => exact .inr ⟨_, .unreadable hdocument⟩
  | some document =>
    cases hroot : Node.ofJson document with
    | error report => exact .inr ⟨_, .malformed hdocument hroot⟩
    | ok root =>
      let ctx : Context := ⟨⟨0⟩, hierarchyOnly⟩
      cases hresult : (DesignFile.lower ctx root : Lowering (List (Package String))).result with
      | error defect =>
        have hlower : (Target.designFile.lower ctx root : Lowering (Product String)).result =
            .error defect := Traced.result_map_eq_error.mpr hresult
        exact .inr ⟨_, .defective hdocument hroot (Session.step_fails_iff.mpr hlower)⟩
      | ok packages =>
        have hlower : (Target.designFile.lower ctx root : Lowering (Product String)).Yields
            (.packages packages) _ := Lowering.yields_map.mpr ⟨packages, ⟨hresult, rfl⟩, rfl⟩
        exact .inl ⟨packages, _, document, root, hdocument, hroot,
          Session.givesAlone_iff.mpr hlower⟩

theorem failure_eq_none_iff : (run render d settings path).failure = none ↔
    ∃ packages log, Lowers d settings.hierarchyOnly path packages log ∧
      ¬(settings.denyUnsupported = true ∧ log ≠ []) := by
  constructor
  · intro h
    rcases lowers_or_refuses d settings.hierarchyOnly path with
      ⟨packages, log, hlowers⟩ | ⟨failure, hrefuses⟩
    · rw [run_of_lowers hlowers] at h
      exact ⟨packages, log, hlowers, by simpa using h⟩
    · rw [run_of_refuses hrefuses] at h
      cases h
  · rintro ⟨packages, log, hlowers, hallowed⟩
    rw [run_of_lowers hlowers, if_neg hallowed]

/-- A conversion looks at nothing but the text at the path. -/
theorem run_eq_of_read?_eq {e : Directory} (h : e.read? path = d.read? path) :
    run render e settings path = run render d settings path := by
  simp only [run, h]

end Outcomes

/-- The success line stands under the outlines only if nothing was skipped. -/
theorem report_eq_success_iff {render : Diagnostic → String} {verbose : Bool} {path : String}
    {packages : List (Package String)} {log : Log} :
    report render verbose path packages log = outlines path packages ++ success ↔ log = [] := by
  constructor
  · intro h
    by_contra hlog
    rw [report, if_neg hlog, String.append_assoc, String.append_right_inj] at h
    have hletter :
        ((summary log ++ if verbose then details render log else "").toList)[1]? = some 'U' := by
      simp [summary]
    rw [h] at hletter
    revert hletter
    decide
  · rintro rfl
    simp [report, details]

/-- A package with a use clause, wherever a file is looked for. -/
def useClauseFile : Directory where
  find? _ := some (.text ("[\"design_file\",[0,9],\"\",[[\"package_declaration\",[0,9],\"\"," ++
    "[[\"identifier\",[1,2],\"p\"],[\"package_declarative_part\",[3,8],\"\"," ++
    "[[\"use_clause\",[3,8],\"use\"]]]]]]]"))

theorem useClauseFile_lowers : Lowers useClauseFile false "u.json"
    [⟨"p", true, [], ⟨⟨0⟩, ⟨0, 9⟩⟩⟩]
    [⟨"PackageHeaderParser.visitUse_clause", .rule .useClause, ⟨3, 8⟩⟩] := by
  let part : Node := ⟨.rule .packageDeclarativePart, ⟨3, 8⟩, "",
    [.leaf (.rule .useClause) ⟨3, 8⟩ "use"]⟩
  let package : Node := ⟨.rule .packageDeclaration, ⟨0, 9⟩, "",
    [.leaf (.rule .identifier) ⟨1, 2⟩ "p", part]⟩
  refine ⟨_, ⟨.rule .designFile, ⟨0, 9⟩, "", [package]⟩, rfl, by decide +kernel, ?_⟩
  exact Session.givesAlone_iff.mpr ⟨by decide +kernel, by decide +kernel⟩

end Conversion
end VhdlLowering
