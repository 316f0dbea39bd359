import VhdlLowering.Name.Store

/-!
# Shared name tables

Several holders may work with one name table. A handle is a reference to a table in a pool; a
cloned handle refers to the same table, a new one to a table of its own, so what one handle interns
is seen by exactly the handles that share its table.
-/

namespace VhdlLowering

/-- Name tables and the handles that refer to them, each handle by the number of its table. -/
structure HandlePool (τ : Type) where
  tables : List τ
  handles : List Nat
  linked : ∀ g ∈ handles, g < tables.length
deriving Repr

namespace HandlePool

variable {τ : Type}

/-- No handles and no tables. -/
def empty : HandlePool τ := ⟨[], [], by simp⟩

/-- Whether there is such a handle. -/
def Has (p : HandlePool τ) (h : Nat) : Prop := h < p.handles.length

instance (p : HandlePool τ) : DecidablePred p.Has :=
  fun h => inferInstanceAs (Decidable (h < p.handles.length))

variable [NameStore τ] (p : HandlePool τ)

/-- The table that a handle sees. -/
def table (h : Nat) : τ := ((p.handles[h]?).bind (p.tables[·]?)).getD NameStore.empty

/-- Interns a name in the table of a handle. -/
def intern (h : Nat) (s : String) : Symbol × HandlePool τ :=
  let (x, t) := NameStore.intern (p.table h) s
  match p.handles[h]? with
  | some i => (x, { p with tables := p.tables.set i t, linked := by simpa using p.linked })
  | none => (x, p)

/-- A further handle for the table of a handle. The answer is the number of the new handle. -/
def clone (h : Nat) : Nat × HandlePool τ :=
  match hi : p.handles[h]? with
  | some i =>
    (p.handles.length,
      { p with
        handles := p.handles ++ [i]
        linked := by
          intro g hg
          rcases List.mem_append.mp hg with hg | hg
          · exact p.linked g hg
          · exact p.linked g (List.mem_singleton.mp hg ▸ List.mem_of_getElem? hi) })
  | none => (p.handles.length, p)

/-- A handle with an empty table of its own. The answer is the number of the new handle. -/
def fresh : Nat × HandlePool τ :=
  (p.handles.length,
    { tables := p.tables ++ [NameStore.empty]
      handles := p.handles ++ [p.tables.length]
      linked := by
        intro g hg
        rw [List.length_append, List.length_singleton]
        rcases List.mem_append.mp hg with hg | hg
        · exact Nat.lt_succ_of_lt (p.linked g hg)
        · exact List.mem_singleton.mp hg ▸ Nat.lt_succ_self _ })

/-- One handle with an empty table. -/
def start : HandlePool NameTable := empty.fresh.2

/-- Asks the table of a handle. -/
def ask (h : Nat) : NameStore.Query → NameStore.Reply × HandlePool τ
  | .intern s =>
    let (x, next) := p.intern h s
    (.symbol x, next)
  | q => ((NameStore.reply (p.table h) q).1, p)

inductive Step where
  | ask (h : Nat) (q : NameStore.Query)
  | clone (h : Nat)
  | fresh
deriving DecidableEq, Repr

inductive Answer where
  | reply (r : NameStore.Reply)
  | handle (h : Nat)
  /-- There is no such handle to work with. -/
  | absent
deriving DecidableEq, Repr

/-- The answer of a step, and the pool after it. -/
def step : Step → Answer × HandlePool τ
  | .ask h q =>
    if p.Has h then
      let (r, next) := p.ask h q
      (.reply r, next)
    else (.absent, p)
  | .clone h =>
    if p.Has h then
      let (i, next) := p.clone h
      (.handle i, next)
    else (.absent, p)
  | .fresh =>
    let (i, next) := p.fresh
    (.handle i, next)

abbrev Event := Step × Answer

/-- The events of some steps that begin without any handles, and the pool after them. -/
def run (τ : Type) [NameStore τ] (steps : List Step) : List Event × HandlePool τ :=
  transcript step empty steps

end HandlePool

end VhdlLowering
