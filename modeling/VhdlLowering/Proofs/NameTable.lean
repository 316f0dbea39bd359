import VhdlLowering.Session

/-!
# Growth of name tables

Interning only appends, so a table is always in front of every later one and a symbol keeps its
name. Interning a list of names appends the first occurrences of those that were not there before.
-/

namespace VhdlLowering

/-- Another element is kept if it has not occurred. -/
theorem eraseDups_concat {α : Type} [BEq α] [LawfulBEq α] (as : List α) (a : α) :
    (as ++ [a]).eraseDups = if a ∈ as.eraseDups then as.eraseDups else as.eraseDups ++ [a] := by
  rw [List.eraseDups_append]
  by_cases h : a ∈ as <;> simp [List.removeAll, List.eraseDups_cons, h]

namespace NameTable

@[ext] theorem ext {t u : NameTable} (h : t.names = u.names) : t = u := by
  cases t
  cases u
  cases h
  rfl

theorem internAll_cons (t : NameTable) (s : String) (ss : List String) :
    t.internAll (s :: ss) = (t.intern s).2.internAll ss := rfl

theorem prefix_intern (t : NameTable) (s : String) : t.names <+: (t.intern s).2.names := by
  rw [names_intern]
  split
  · exact List.prefix_rfl
  · exact List.prefix_append _ _

/-- A symbol keeps its name while the table grows. -/
theorem resolve?_of_prefix {t u : NameTable} (h : t.names <+: u.names) {x : Symbol} {s : String}
    (hx : t.resolve? x = some s) : u.resolve? x = some s := by
  obtain ⟨later, h⟩ := h
  have hlt : x.index < t.names.length := (List.getElem?_eq_some_iff.mp hx).1
  rw [resolve?, ← h, List.getElem?_append_left hlt]
  exact hx

theorem resolve?_eq_some_nameOf {t : NameTable} {x : Symbol} (h : (t.resolve? x).isSome) :
    t.resolve? x = some (t.nameOf x) := by
  obtain ⟨s, hs⟩ := Option.isSome_iff_exists.mp h
  rw [nameOf, hs, Option.getD_some]

/-- The first occurrences of the new names are appended. -/
theorem names_internAll (t : NameTable) (ss : List String) :
    (t.internAll ss).names = t.names ++ (ss.filter (· ∉ t.names)).eraseDups := by
  induction ss generalizing t with
  | nil => simp
  | cons s ss ih =>
    rw [internAll_cons, ih, names_intern]
    by_cases hs : s ∈ t.names
    · simp [hs]
    · have hrest : (ss.filter (· ∉ t.names ++ [s])) =
          (ss.filter (· ∉ t.names)).filter fun r => !r == s := by
        rw [List.filter_filter]
        refine List.filter_congr fun r _ => ?_
        by_cases hr : r = s <;> simp [hr]
      rw [if_neg hs, hrest, List.filter_cons_of_pos (by simpa using hs), List.eraseDups_cons,
        List.append_assoc, List.singleton_append]

theorem prefix_internAll (t : NameTable) (ss : List String) :
    t.names <+: (t.internAll ss).names := by
  rw [names_internAll]
  exact List.prefix_append _ _

/-- Names that are known leave the table as it is. -/
theorem internAll_of_known {t : NameTable} {ss : List String} (h : ∀ s ∈ ss, s ∈ t.names) :
    t.internAll ss = t := by
  have hnew : ss.filter (· ∉ t.names) = [] := by
    simpa using h
  ext1
  rw [names_internAll, hnew, List.eraseDups_nil, List.append_nil]

theorem names_internAll_empty (ss : List String) :
    (empty.internAll ss).names = ss.eraseDups := by
  rw [names_internAll, List.filter_eq_self.mpr fun s _ => by simp [empty]]
  rfl

theorem mem_names_internAll {t : NameTable} {ss : List String} {s : String} :
    s ∈ (t.internAll ss).names ↔ s ∈ t.names ∨ s ∈ ss := by
  rw [names_internAll, List.mem_append, List.mem_eraseDups, List.mem_filter]
  by_cases hs : s ∈ t.names <;> simp [hs]

/-- A table may be interned name by name in place of what was interned in it. -/
theorem internAll_names_internAll (t u : NameTable) (ss : List String) :
    t.internAll (u.internAll ss).names = (t.internAll u.names).internAll ss := by
  induction ss generalizing u with
  | nil => rfl
  | cons s ss ih =>
    rw [internAll_cons, ih, internAll_cons]
    congr 1
    rw [names_intern]
    split
    · rename_i hs
      ext1
      rw [names_intern, if_pos (mem_names_internAll.mpr (.inr hs))]
    · rw [internAll_append]
      rfl

end NameTable
end VhdlLowering
