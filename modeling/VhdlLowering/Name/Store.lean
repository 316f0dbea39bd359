import VhdlLowering.Name.Table

/-!
# Stores of names

Names may be interned in any implementation of name tables. All that is relied on is what one call
does: a name that a symbol stands for keeps that symbol, every other name gets the next free one.
-/

namespace VhdlLowering

/-- An implementation of name tables. -/
class NameStore (τ : Type) where
  empty : τ
  /-- The symbol of a name, with the table that holds the name. -/
  intern : τ → String → Symbol × τ
  resolve? : τ → Symbol → Option String
  size : τ → Nat

open NameStore

/-- What an implementation has to do. A name is known if some symbol stands for it. -/
class LawfulNameStore (τ : Type) [NameStore τ] : Prop where
  size_empty : size (empty : τ) = 0
  resolve?_empty (x : Symbol) : resolve? (empty : τ) x = none
  intern_known {t : τ} {s : String} {x : Symbol} (h : resolve? t x = some s) : intern t s = (x, t)
  symbol_new {t : τ} {s : String} (h : ∀ x, resolve? t x ≠ some s) : (intern t s).1 = ⟨size t⟩
  size_new {t : τ} {s : String} (h : ∀ x, resolve? t x ≠ some s) :
    size (intern t s).2 = size t + 1
  resolve?_new {t : τ} {s : String} (h : ∀ x, resolve? t x ≠ some s) (x : Symbol) :
    resolve? (intern t s).2 x = if x = ⟨size t⟩ then some s else resolve? t x

instance : NameStore NameTable where
  empty := .empty
  intern := NameTable.intern
  resolve? := NameTable.resolve?
  size := NameTable.size

theorem NameTable.not_mem_names {t : NameTable} {s : String} (h : ∀ x, t.resolve? x ≠ some s) :
    s ∉ t.names := by
  intro hs
  obtain ⟨i, hi⟩ := List.getElem?_of_mem hs
  exact h ⟨i⟩ hi

instance : LawfulNameStore NameTable where
  size_empty := rfl
  resolve?_empty _ := rfl
  intern_known {t s x} h := by
    obtain ⟨hx, rfl⟩ := List.getElem?_eq_some_iff.mp h
    exact (dif_pos (List.getElem_mem hx)).trans
      (congrArg (fun i => ((⟨i⟩ : Symbol), t)) (t.nodup.idxOf_getElem x.index hx))
  symbol_new h := congrArg Prod.fst (dif_neg (NameTable.not_mem_names h))
  size_new {t s} h := by
    change (t.intern s).2.names.length = t.names.length + 1
    rw [NameTable.names_intern, if_neg (NameTable.not_mem_names h), List.length_append,
      List.length_singleton]
  resolve?_new {t s} h x := by
    change (t.intern s).2.names[x.index]? =
      if x = ⟨t.names.length⟩ then some s else t.names[x.index]?
    rw [NameTable.names_intern, if_neg (NameTable.not_mem_names h)]
    by_cases hx : x = ⟨t.names.length⟩
    · rw [if_pos hx, hx, List.getElem?_concat_length]
    · have hne : x.index ≠ t.names.length := fun hindex => hx (congrArg Symbol.mk hindex)
      rw [if_neg hx, List.getElem?_append]
      split
      · rfl
      · rename_i hlt
        have hpast : t.names.length < x.index := Nat.lt_of_le_of_ne (Nat.le_of_not_lt hlt) hne.symm
        rw [List.getElem?_eq_none (Nat.le_of_lt hpast), List.getElem?_eq_none]
        exact Nat.sub_pos_of_lt hpast

/-- What is done to a state and what it answers, in order, and the state in the end. -/
def transcript {σ α β : Type} (act : σ → α → β × σ) (s : σ) (as : List α) : List (α × β) × σ :=
  as.foldl (fun r a => (r.1 ++ [(a, (act r.2 a).1)], (act r.2 a).2)) ([], s)

theorem transcript_concat {σ α β : Type} (act : σ → α → β × σ) (s : σ) (as : List α) (a : α) :
    transcript act s (as ++ [a]) =
      ((transcript act s as).1 ++ [(a, (act (transcript act s as).2 a).1)],
        (act (transcript act s as).2 a).2) := by
  simp [transcript, List.foldl_append]

namespace NameStore

/-- A request to a table. -/
inductive Query where
  | intern (s : String)
  /-- Asks for the name of a symbol that the table is expected to know. -/
  | resolve (x : Symbol)
  | tryResolve (x : Symbol)
deriving DecidableEq, Repr

inductive Reply where
  | symbol (x : Symbol)
  | name (s : String)
  | lookup (s : Option String)
  /-- The table was expected to know a symbol that it does not know. -/
  | failure
deriving DecidableEq, Repr

variable {τ : Type} [NameStore τ]

/-- The reply of a table, and the table after it. -/
def reply (t : τ) : Query → Reply × τ
  | .intern s =>
    let (x, u) := intern t s
    (.symbol x, u)
  | .resolve x => ((resolve? t x).elim .failure .name, t)
  | .tryResolve x => (.lookup (resolve? t x), t)

end NameStore

end VhdlLowering
