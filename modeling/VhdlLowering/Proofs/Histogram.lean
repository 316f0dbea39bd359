import Mathlib.Algebra.GroupWithZero.Nat
import VhdlLowering.Proofs.Conversions

/-!
# Skipped constructs by label

The summary of a log is a histogram: each label stands in it once, where it occurs first, with the
number of its entries. The summary of two logs in a row is merged from their summaries. A report
shows the total and the numbers of the summary, and the total is their sum.
-/

namespace VhdlLowering

namespace Log

theorem eraseDups_filter (p : String → Bool) (ls : List String) :
    (ls.filter p).eraseDups = ls.eraseDups.filter p := by
  induction ls using List.reverseRecOn with
  | nil => rfl
  | append_singleton ls l ih =>
    rw [List.filter_append, eraseDups_concat]
    cases hp : p l with
    | false => by_cases hl : l ∈ ls <;> simp [ih, hp, hl]
    | true =>
      have hsingle : [l].filter p = [l] := by simp [hp]
      rw [hsingle, eraseDups_concat, ih]
      by_cases hl : l ∈ ls <;> simp [hp, hl]

/-- Labels without repetition stand in the order in which they occur first. -/
theorem pairwise_idxOf_eraseDups (ls : List String) :
    ls.eraseDups.Pairwise fun k l => ls.idxOf k < ls.idxOf l := by
  induction ls using List.reverseRecOn with
  | nil => exact .nil
  | append_singleton ls l ih =>
    have hkeep : ∀ k ∈ ls.eraseDups, (ls ++ [l]).idxOf k = ls.idxOf k := fun k hk =>
      List.idxOf_append_of_mem (List.mem_eraseDups.mp hk)
    have hold : ls.eraseDups.Pairwise fun j k => (ls ++ [l]).idxOf j < (ls ++ [l]).idxOf k := by
      refine ih.imp_of_mem fun {j k} hj hk hlt => ?_
      rwa [hkeep j hj, hkeep k hk]
    rw [eraseDups_concat]
    split
    · exact hold
    · rename_i hnew
      have hl : l ∉ ls := fun h => hnew (List.mem_eraseDups.mpr h)
      refine List.pairwise_append.mpr ⟨hold, List.pairwise_singleton _ _, fun k hk m hm => ?_⟩
      cases List.mem_singleton.mp hm
      rw [hkeep k hk, List.idxOf_append_of_notMem hl]
      exact Nat.lt_add_right _ (List.idxOf_lt_length_of_mem (List.mem_eraseDups.mp hk))

/-- The number of times that each label stands in a list. -/
def histogram (ls : List String) : List (String × Nat) := ls.eraseDups.map fun l => (l, ls.count l)

/-- The labels in a summary. -/
def labelsOf (counts : List (String × Nat)) : List String := counts.map Prod.fst

/-- The number that stands with a label in a summary, zero for a label that is not in it. -/
def countOf (counts : List (String × Nat)) (l : String) : Nat := (counts.lookup l).getD 0

/-- One summary after another: the numbers of the second one are added to the first one in place,
and the labels that are new in the second one come behind. -/
def merge (first second : List (String × Nat)) : List (String × Nat) :=
  (first.map fun (l, n) => (l, n + countOf second l)) ++
    second.filter fun (l, _) => l ∉ labelsOf first

theorem map_histogram {α : Type} (f : String × Nat → α) (ls : List String) :
    (histogram ls).map f = ls.eraseDups.map fun l => f (l, ls.count l) :=
  List.map_map

theorem labelsOf_histogram (ls : List String) : labelsOf (histogram ls) = ls.eraseDups := by
  rw [labelsOf, map_histogram, List.map_id']

theorem mem_histogram_iff {ls : List String} {l : String} {n : Nat} :
    (l, n) ∈ histogram ls ↔ l ∈ ls ∧ n = ls.count l := by
  rw [histogram, List.mem_map]
  simp only [List.mem_eraseDups, Prod.mk.injEq]
  constructor
  · rintro ⟨k, hk, rfl, rfl⟩
    exact ⟨hk, rfl⟩
  · rintro ⟨hl, rfl⟩
    exact ⟨l, hl, rfl, rfl⟩

theorem countOf_map {ls : List String} {f : String → Nat} {l : String} (h : l ∉ ls → f l = 0) :
    countOf (ls.map fun k => (k, f k)) l = f l := by
  induction ls with
  | nil => simp [countOf, h]
  | cons k ks ih =>
    rw [countOf, List.map_cons, List.lookup_cons]
    by_cases hk : l = k
    · simp [hk]
    · rw [beq_eq_false_iff_ne.mpr hk]
      exact ih fun hl => h (by simp [hk, hl])

theorem countOf_histogram (ls : List String) (l : String) :
    countOf (histogram ls) l = ls.count l := by
  refine countOf_map fun hl => List.count_eq_zero.mpr ?_
  rwa [List.mem_eraseDups] at hl

theorem histogram_append (ls ms : List String) :
    histogram (ls ++ ms) = merge (histogram ls) (histogram ms) := by
  have hnew : ms.removeAll ls = ms.filter fun l => l ∉ ls :=
    List.filter_congr fun l _ => by simp
  rw [merge, histogram, List.eraseDups_append, List.map_append, hnew, eraseDups_filter]
  congr 1
  · rw [map_histogram]
    refine List.map_congr_left fun l _ => ?_
    dsimp only
    rw [countOf_histogram, List.count_append]
  · simp only [labelsOf_histogram, List.mem_eraseDups]
    rw [histogram, List.filter_map]
    refine List.map_congr_left fun l hl => ?_
    have hl : l ∉ ls := by simpa using (List.mem_filter.mp hl).2
    rw [List.count_append, List.count_eq_zero.mpr hl, Nat.zero_add]

theorem sum_tally (l : String) (counts : List (String × Nat)) :
    ((tally l counts).map Prod.snd).sum = (counts.map Prod.snd).sum + 1 := by
  induction counts with
  | nil => rfl
  | cons entry rest ih =>
    obtain ⟨k, n⟩ := entry
    by_cases hk : k = l
    · simp only [tally, if_pos hk, List.map_cons, List.sum_cons]
      omega
    · simp only [tally, if_neg hk, List.map_cons, List.sum_cons, ih]
      omega

/-- Each entry is counted once. -/
theorem sum_summary (log : Log) : ((summary log).map Prod.snd).sum = log.length := by
  induction log using List.reverseRecOn with
  | nil => rfl
  | append_singleton log s ih =>
    rw [summary_concat, sum_tally, ih, List.length_append, List.length_singleton]

theorem summary_eq_histogram (log : Log) : summary log = histogram (log.map Skipped.label) :=
  summary_eq log

theorem summary_append (log more : Log) :
    summary (log ++ more) = merge (summary log) (summary more) := by
  simp only [summary_eq_histogram, List.map_append, histogram_append]

end Log

namespace Conversion

/-- The first number that stands in a text. -/
def firstNumber (s : String) : Nat :=
  Nat.ofDigitChars 10 ((s.toList.dropWhile fun c => !c.isDigit).takeWhile Char.isDigit) 0

theorem firstNumber_eq {s : String} {n : Nat} (before after : List Char)
    (hs : s.toList = before ++ (Nat.toDigits 10 n ++ after))
    (hbefore : ∀ c ∈ before, (!c.isDigit) = true) (hafter : after.takeWhile Char.isDigit = []) :
    firstNumber s = n := by
  have hdigits : ∀ c ∈ Nat.toDigits 10 n, c.isDigit = true := fun c =>
    Nat.isDigit_of_mem_toDigits (by decide) (by decide)
  have hdrop : (Nat.toDigits 10 n ++ after).dropWhile (fun c => !c.isDigit) =
      Nat.toDigits 10 n ++ after := by
    obtain ⟨d, ds, hd⟩ := List.exists_cons_of_ne_nil (Nat.toDigits_ne_nil (n := n) (b := 10))
    have hdigit := hdigits d (hd ▸ List.mem_cons_self)
    rw [hd, List.cons_append, List.dropWhile_cons_of_neg (by simp [hdigit])]
  rw [firstNumber, hs, List.dropWhile_append_of_pos hbefore, hdrop,
    List.takeWhile_append_of_pos hdigits, hafter, List.append_nil,
    Nat.ofDigitChars_toDigits (by decide) (by decide)]

/-- The line for the number of skipped constructs. -/
def totalLine (total : Nat) : String :=
  "\nUnsupported " ++ toString total ++ " construct(s) skipped:\n"

/-- The line for a label and its number. -/
def countLine (entry : String × Nat) : String :=
  "  " ++ column entry.2 ++ "  " ++ entry.1 ++ "\n"

theorem firstNumber_totalLine (total : Nat) : firstNumber (totalLine total) = total := by
  refine firstNumber_eq "\nUnsupported ".toList " construct(s) skipped:\n".toList ?_
    (List.all_eq_true.mp (by decide)) (by decide)
  simp [totalLine, Nat.toString_eq_repr, Nat.toList_repr]

theorem firstNumber_countLine (entry : String × Nat) :
    firstNumber (countLine entry) = entry.2 := by
  refine firstNumber_eq
    ([' ', ' '] ++ List.replicate (4 - (Nat.toDigits 10 entry.2).length) ' ')
    ([' ', ' '] ++ entry.1.toList ++ ['\n']) ?_ ?_ ?_
  · simp [countLine, column]
  · intro c hc
    have hblank : c = ' ' := by
      rcases List.mem_append.mp hc with h | h
      · simpa using h
      · exact List.eq_of_mem_replicate h
    rw [hblank]
    decide
  · rfl

/-- The number in the line for all entries is the sum of the numbers in the lines for labels. -/
theorem firstNumber_total (log : Log) :
    firstNumber (totalLine log.length) =
      (((Log.summary log).map countLine).map firstNumber).sum := by
  have hcounts : ((Log.summary log).map countLine).map firstNumber =
      (Log.summary log).map Prod.snd := by
    rw [List.map_map]
    refine List.map_congr_left fun entry _ => ?_
    rw [Function.comp_apply, firstNumber_countLine]
  rw [firstNumber_totalLine, hcounts, Log.sum_summary]

theorem summary_eq_lines (log : Log) :
    summary log = totalLine log.length ++ String.join ((Log.summary log).map countLine) := by
  rw [summary, Log.summary_eq, List.map_map]
  rfl

/-- The summary of a log has each label of the log once, in the order of first occurrence, with the
number of its entries, and these numbers add up to the number of entries; the summary of two logs in
a row is merged from theirs. So the total in a report is the sum of the numbers by label. -/
theorem total_is_sum_of_counts :
    (∀ log : Log,
      let labels := log.map Skipped.label
      (∀ l, l ∈ Log.labelsOf (Log.summary log) ↔ l ∈ labels) ∧
      (Log.labelsOf (Log.summary log)).Pairwise (fun k l => labels.idxOf k < labels.idxOf l) ∧
      (∀ l n, (l, n) ∈ Log.summary log → n = log.countP fun s => s.label = l) ∧
      ((Log.summary log).map Prod.snd).sum = log.length) ∧
    (∀ log more : Log,
      Log.summary (log ++ more) = Log.merge (Log.summary log) (Log.summary more)) ∧
    ∀ (render : Diagnostic → String) (d : Directory) (settings : Settings) (path : String),
      ((run render d settings path).failure = none →
        ∃ packages log, Lowers d settings.hierarchyOnly path packages log) ∧
      ∀ packages log, Lowers d settings.hierarchyOnly path packages log → log ≠ [] →
        let total := totalLine log.length
        let counts := (Log.summary log).map countLine
        (run render d settings path).output =
          outlines path packages ++ total ++ String.join counts ++
            (if settings.verbose then details render log else "") ∧
        firstNumber total = (counts.map firstNumber).sum := by
  refine ⟨fun log => ?_, Log.summary_append, fun render d settings path => ⟨fun h => ?_, ?_⟩⟩
  · have hsummary := Log.summary_eq_histogram log
    refine ⟨fun l => ?_, ?_, fun l n h => ?_, Log.sum_summary log⟩
    · rw [hsummary, Log.labelsOf_histogram, List.mem_eraseDups]
    · rw [hsummary, Log.labelsOf_histogram]
      exact Log.pairwise_idxOf_eraseDups _
    · rw [hsummary] at h
      rw [(Log.mem_histogram_iff.mp h).2, List.count, List.countP_map]
      exact List.countP_congr fun s _ => by simp
  · obtain ⟨packages, log, hlowers, -⟩ := failure_eq_none_iff.mp h
    exact ⟨packages, log, hlowers⟩
  · intro packages log hlowers hlog
    refine ⟨?_, firstNumber_total log⟩
    rw [run_of_lowers hlowers]
    simp only [report, if_neg hlog, summary_eq_lines, String.append_assoc]

/-- A conversion with one skipped construct, read off its report. -/
theorem useClauseFile_counted :
    (run Diagnostic.render useClauseFile ⟨false, false, false⟩ "u.json").failure = none ∧
      ∃ total, (run Diagnostic.render useClauseFile ⟨false, false, false⟩ "u.json").output =
        "Lowered 1 package(s) from u.json\n\npackage p\n" ++ total ++
          "     1  PackageHeaderParser.visitUse_clause\n" ∧ firstNumber total = 1 := by
  obtain ⟨-, -, hrun⟩ := total_is_sum_of_counts
  obtain ⟨-, hreport⟩ := hrun Diagnostic.render useClauseFile ⟨false, false, false⟩ "u.json"
  obtain ⟨houtput, htotal⟩ := hreport _ _ useClauseFile_lowers (List.cons_ne_nil _ _)
  refine ⟨failure_eq_none_iff.mpr ⟨_, _, useClauseFile_lowers, by decide⟩,
    _, houtput.trans ?_, htotal.trans ?_⟩
  · decide +kernel
  · decide +kernel

end Conversion
end VhdlLowering
