import Mathlib.Data.List.Induction
import VhdlLowering.Name.Store
import VhdlLowering.Proofs.NameTable

/-!
# What a name store knows

Whatever a table is asked, the symbols that it gives are counted in the order of first interning,
and each of them stands for the name that it was given for, from then on.
-/

namespace VhdlLowering

namespace NameStore

variable {τ : Type} [NameStore τ] {t : τ} {calls : List (String × Symbol)}

/-- The names that were interned, each with the symbol it was given. -/
def interned (queries : List (Query × Reply)) : List (String × Symbol) :=
  queries.filterMap fun
    | (.intern s, .symbol x) => some (s, x)
    | _ => none

/-- The table after some names were interned: it knows them by the symbols they were given, which
are the numbers below its size in the order of first interning. -/
structure Knows (t : τ) (calls : List (String × Symbol)) : Prop where
  counted : (calls.map Prod.snd).eraseDups = (List.range (size t)).map Symbol.mk
  resolves : ∀ c ∈ calls, resolve? t c.2 = some c.1
  none_iff : ∀ x, resolve? t x = none ↔ size t ≤ x.index

theorem Knows.mem_symbols_iff (h : Knows t calls) {x : Symbol} :
    x ∈ (calls.map Prod.snd).eraseDups ↔ x.index < size t := by
  rw [h.counted, List.mem_map]
  constructor
  · rintro ⟨i, hi, rfl⟩
    exact List.mem_range.mp hi
  · intro hx
    exact ⟨x.index, List.mem_range.mpr hx, rfl⟩

theorem Knows.index_lt (h : Knows t calls) {x : Symbol} {s : String}
    (hx : resolve? t x = some s) : x.index < size t := by
  refine Nat.lt_of_not_le fun hle => ?_
  rw [(h.none_iff x).mpr hle] at hx
  cases hx

variable [LawfulNameStore τ]

open LawfulNameStore

/-- A name has one symbol only. -/
theorem eq_of_resolve? {s : String} {x y : Symbol} (hx : resolve? t x = some s)
    (hy : resolve? t y = some s) : x = y :=
  congrArg Prod.fst ((intern_known hx).symm.trans (intern_known hy))

theorem Knows.symbol_eq_iff (h : Knows t calls) {c d : String × Symbol} (hc : c ∈ calls)
    (hd : d ∈ calls) : c.2 = d.2 ↔ c.1 = d.1 := by
  have hct := h.resolves c hc
  have hdt := h.resolves d hd
  constructor
  · intro hsymbol
    rw [hsymbol, hdt] at hct
    exact (Option.some.inj hct).symm
  · intro hname
    rw [hname] at hct
    exact eq_of_resolve? hct hdt

theorem knows_empty : Knows (empty : τ) [] where
  counted := by rw [size_empty]; rfl
  resolves := List.forall_mem_nil _
  none_iff x := by simp [resolve?_empty, size_empty]

/-- Interning a name, known or new. -/
theorem Knows.intern (h : Knows t calls) (s : String) :
    Knows (intern t s).2 (calls ++ [(s, (intern t s).1)]) := by
  by_cases hs : ∃ x, resolve? t x = some s
  · obtain ⟨x, hx⟩ := hs
    rw [intern_known hx]
    refine ⟨?_, ?_, h.none_iff⟩
    · rw [List.map_append, List.map_singleton, eraseDups_concat,
        if_pos (h.mem_symbols_iff.mpr (h.index_lt hx)), h.counted]
    · rw [List.forall_mem_append, List.forall_mem_singleton]
      exact ⟨h.resolves, hx⟩
  · have hs : ∀ x, resolve? t x ≠ some s := not_exists.mp hs
    rw [symbol_new hs]
    refine ⟨?_, ?_, fun x => ?_⟩
    · have hnew : (⟨size t⟩ : Symbol) ∉ (calls.map Prod.snd).eraseDups := by
        rw [h.mem_symbols_iff]
        exact Nat.lt_irrefl _
      rw [List.map_append, List.map_singleton, eraseDups_concat, if_neg hnew, h.counted,
        size_new hs, List.range_succ, List.map_append, List.map_singleton]
    · rw [List.forall_mem_append, List.forall_mem_singleton]
      refine ⟨fun c hc => ?_, by rw [resolve?_new hs, if_pos rfl]⟩
      have hlt := h.index_lt (h.resolves c hc)
      have hne : c.2 ≠ ⟨size t⟩ := fun hsymbol => by
        rw [hsymbol] at hlt
        exact Nat.lt_irrefl _ hlt
      rw [resolve?_new hs, if_neg hne, h.resolves c hc]
    · rw [resolve?_new hs, size_new hs]
      by_cases hx : x = ⟨size t⟩
      · simp [hx]
      · have hne : x.index ≠ size t := fun hindex => hx (congrArg Symbol.mk hindex)
        rw [if_neg hx, h.none_iff]
        omega

theorem interned_concat (queries : List (Query × Reply)) (q : Query × Reply) :
    interned (queries ++ [q]) = interned queries ++ interned [q] :=
  List.filterMap_append

theorem Knows.reply {queries : List (Query × Reply)} (h : Knows t (interned queries)) (q : Query) :
    Knows (reply t q).2 (interned (queries ++ [(q, (reply t q).1)])) := by
  rw [interned_concat]
  cases q with
  | intern s => exact h.intern s
  | resolve x => rwa [show interned [_] = [] from rfl, List.append_nil]
  | tryResolve x => rwa [show interned [_] = [] from rfl, List.append_nil]

/-- Whatever a table is asked, it knows what was interned. -/
theorem knows_transcript (queries : List Query) :
    Knows (transcript NameStore.reply (empty : τ) queries).2
      (interned (transcript NameStore.reply (empty : τ) queries).1) := by
  induction queries using List.reverseRecOn with
  | nil => exact knows_empty
  | append_singleton queries q ih =>
    rw [transcript_concat]
    exact ih.reply q

end NameStore
end VhdlLowering
