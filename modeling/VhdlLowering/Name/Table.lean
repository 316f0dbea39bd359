/-!
# Name tables

A name table gives every name a symbol. A name that is already in the table keeps its symbol, a new
one gets the next free number, so the symbols count the names in the order of first interning.
-/

namespace VhdlLowering

/-- Stands for a name in a table. -/
structure Symbol where
  index : Nat
deriving DecidableEq, Repr, Inhabited

/-- The names met so far, each once, in the order of first interning. -/
structure NameTable where
  names : List String
  nodup : names.Nodup
deriving Repr

namespace NameTable

def empty : NameTable := ⟨[], List.nodup_nil⟩

instance : Inhabited NameTable := ⟨empty⟩

def size (t : NameTable) : Nat := t.names.length

def isEmpty (t : NameTable) : Bool := t.names.isEmpty

/-- The name that a symbol stands for; none if the table never gave out the symbol. -/
def resolve? (t : NameTable) (x : Symbol) : Option String := t.names[x.index]?

theorem nodup_append_singleton {names : List String} {s : String} (hn : names.Nodup)
    (hs : s ∉ names) : (names ++ [s]).Nodup := by
  rw [List.nodup_append]
  refine ⟨hn, by simp, fun a ha b hb => ?_⟩
  rintro rfl
  exact hs ((List.mem_singleton.mp hb) ▸ ha)

/-- The name that a symbol stands for, or the empty text for a symbol of another table. -/
def nameOf (t : NameTable) (x : Symbol) : String := (t.resolve? x).getD ""

/-- The symbol of a name, with the table that holds the name. -/
def intern (t : NameTable) (s : String) : Symbol × NameTable :=
  if h : s ∈ t.names then
    (⟨t.names.idxOf s⟩, t)
  else
    (⟨t.names.length⟩, ⟨t.names ++ [s], nodup_append_singleton t.nodup h⟩)

theorem names_intern (t : NameTable) (s : String) :
    (t.intern s).2.names = if s ∈ t.names then t.names else t.names ++ [s] := by
  unfold intern
  split <;> simp_all

theorem resolve?_intern (t : NameTable) (s : String) :
    (t.intern s).2.resolve? (t.intern s).1 = some s := by
  unfold intern resolve?
  split
  · rename_i h
    rw [List.getElem?_eq_getElem (List.idxOf_lt_length_of_mem h)]
    simp
  · simp

/-- One line that tells how many names the table holds. -/
def describe (t : NameTable) : String := "Interner \x7b len: " ++ toString t.size ++ " \x7d"

end NameTable
end VhdlLowering
