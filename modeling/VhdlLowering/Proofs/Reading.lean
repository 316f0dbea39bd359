import Mathlib.Data.List.Forall2
import VhdlLowering.Json.Reader

/-!
# What readers take

A reader looks at the shapes of tokens and not at their places. It accepts shapes if it takes tokens
of these shapes off the front of any list, and it rejects them if it stops among them. An object is
read field by field and a list element by element, so both are accepted if their parts are, and
rejected with the first part that is.
-/

namespace VhdlLowering
namespace Json

variable {α β σ : Type}

theorem bind_eq_ok {ε : Type} {x : Except ε α} {f : α → Except ε β} {b : β} :
    x >>= f = .ok b ↔ ∃ a, x = .ok a ∧ f a = .ok b := by
  cases x with
  | error e => exact ⟨nofun, nofun⟩
  | ok a => exact ⟨fun h => ⟨a, rfl, h⟩, fun ⟨_, ha, h⟩ => by cases ha; exact h⟩

/-- The reader takes tokens of the given shapes off the front and gives the value. -/
def Accepts (r : Reader α) (shapes : List Shape) (x : α) : Prop :=
  ∀ ts us : List Token, ts.map Token.shape = shapes → r (ts ++ us) = .ok (x, us)

/-- The reader stops among tokens of the given shapes. -/
def Rejects (r : Reader α) (shapes : List Shape) (cause : Cause) : Prop :=
  ∀ ts us : List Token, ts.map Token.shape = shapes →
    ∃ place, r (ts ++ us) = .error ⟨cause, place⟩

/-- The shape of a string literal with a text. -/
def literalShape (s : String) : Shape := .literal (.ok s) (.ok ())

/-- The shape of a numeral with a value of 32 bits. -/
def numeralShape (n : UInt32) : Shape := .numeral (.ok (.natural n.toNat)) (.ok ())

theorem accepts_readString (quote : String → String) (s : String) :
    Accepts (readString quote) [literalShape s] s := by
  intro ts us hts
  obtain ⟨⟨shape, start, stop⟩, rfl, rfl⟩ := List.map_eq_singleton_iff.mp hts
  rfl

theorem accepts_readWord32 (quote : String → String) (n : UInt32) :
    Accepts (readWord32 quote) [numeralShape n] n := by
  intro ts us hts
  obtain ⟨⟨shape, start, stop⟩, rfl, rfl⟩ := List.map_eq_singleton_iff.mp hts
  have hn : n.toNat < UInt32.size := n.toNat_lt
  exact (if_pos hn).trans (by simp)

theorem Accepts.bind {r : Reader α} {f : α × List Token → Except Fault (β × List Token)}
    {shapes shapes' : List Shape} {x : α} {y : β} (h : Accepts r shapes x)
    (h' : Accepts (fun ts => f (x, ts)) shapes' y) :
    Accepts (fun ts => r ts >>= f) (shapes ++ shapes') y := by
  intro ts us hts
  obtain ⟨ts, ts', rfl, hts, hts'⟩ := List.map_eq_append_iff.mp hts
  dsimp only
  rw [List.append_assoc, h ts _ hts]
  exact h' ts' us hts'

theorem Accepts.map {r : Reader α} {shapes : List Shape} {x : α} (h : Accepts r shapes x)
    (f : α → β) : Accepts (fun ts => do let (x, ts) ← r ts; return (f x, ts)) shapes (f x) := by
  intro ts us hts
  dsimp only
  rw [h ts us hts]
  rfl

theorem Rejects.map {r : Reader α} {shapes : List Shape} {cause : Cause}
    (h : Rejects r shapes cause) (f : α → β) :
    Rejects (fun ts => do let (x, ts) ← r ts; return (f x, ts)) shapes cause := by
  intro ts us hts
  obtain ⟨place, hplace⟩ := h ts us hts
  refine ⟨place, ?_⟩
  dsimp only
  rw [hplace]
  rfl

/-- A reader that goes on with another one behind its first token. -/
theorem Accepts.behind {r r' : Reader α} {shape : Shape} {shapes : List Shape} {x : α}
    (h : Accepts r' shapes x) (hr : ∀ t ts, t.shape = shape → r (t :: ts) = r' ts) :
    Accepts r (shape :: shapes) x := by
  intro ts us hts
  obtain ⟨t, ts, rfl, ht, hts⟩ := List.map_eq_cons_iff.mp hts
  rw [List.cons_append, hr t _ ht]
  exact h ts us hts

theorem Rejects.behind {r r' : Reader α} {shape : Shape} {shapes : List Shape} {cause : Cause}
    (h : Rejects r' shapes cause) (hr : ∀ t ts, t.shape = shape → r (t :: ts) = r' ts) :
    Rejects r (shape :: shapes) cause := by
  intro ts us hts
  obtain ⟨t, ts, rfl, ht, hts⟩ := List.map_eq_cons_iff.mp hts
  rw [List.cons_append, hr t _ ht]
  exact h ts us hts

theorem enter_of_pos {left : Nat} (hleft : 0 < left) (t : Token) (inside : Except Fault α) :
    enter t left inside = inside :=
  if_neg (Nat.ne_of_gt hleft)

theorem enter_eq_ok {t : Token} {left : Nat} {inside : Except Fault α} {x : α} :
    enter t left inside = .ok x ↔ 0 < left ∧ inside = .ok x := by
  cases left with
  | zero => exact ⟨nofun, fun h => absurd h.1 (Nat.lt_irrefl 0)⟩
  | succ left => simp [enter]

/-- The bracket that takes the last of the depth is a fault. -/
theorem rejects_enter {r : Reader α} (r' : Reader α) {shape : Shape} {shapes : List Shape}
    (hr : ∀ t ts, t.shape = shape → r (t :: ts) = enter t 0 (r' ts)) :
    Rejects r (shape :: shapes) .nestedTooDeep := by
  intro ts us hts
  obtain ⟨t, ts, rfl, ht, -⟩ := List.map_eq_cons_iff.mp hts
  exact ⟨some (t.start + 1), hr t (ts ++ us) ht⟩

theorem newField_colon {t : Token} (ht : t.shape = .colon) (name : String) (r : Reader α)
    (ts : List Token) :
    newField name none r (t :: ts) = do let (x, ts) ← r ts; return (some x, ts) := by
  have hafter : afterColon (t :: ts) = .ok ts := by rw [afterColon, ht]
  rw [newField, hafter]
  rfl

theorem accepts_newField {r : Reader α} {shapes : List Shape} {x : α} (name : String)
    (h : Accepts r shapes x) : Accepts (newField name none r) (.colon :: shapes) (some x) :=
  (h.map some).behind fun _ ts ht => newField_colon ht name r ts

theorem rejects_newField {r : Reader α} {shapes : List Shape} {cause : Cause} (name : String)
    (h : Rejects r shapes cause) : Rejects (newField name none r) (.colon :: shapes) cause :=
  (h.map some).behind fun _ ts ht => newField_colon ht name r ts

/-- The comma in front of a field or an element, unless it is the first one. -/
def separatorShapes (first : Bool) : List Shape := if first then [] else [.comma]

/-- The shapes of a key and of the comma in front of it. -/
def keyShapes (first : Bool) (key : String) : List Shape :=
  separatorShapes first ++ [literalShape key]

/-- The shapes of the fields of an object. -/
def fieldShapes (first : Bool) : List (String × List Shape) → List Shape
  | [] => []
  | (key, value) :: es => keyShapes first key ++ (.colon :: value ++ fieldShapes false es)

/-- The shapes of an object. -/
def objectShapes (es : List (String × List Shape)) : List Shape :=
  .openBrace :: (fieldShapes true es ++ [.closeBrace])

/-- The fields are accepted one after the other. -/
inductive AcceptsFields (field : String → σ → Reader σ) :
    σ → List (String × List Shape) → σ → Prop
  | nil (known : σ) : AcceptsFields field known [] known
  | cons {known next last : σ} {key : String} {value : List Shape}
      {es : List (String × List Shape)} (h : Accepts (field key known) (.colon :: value) next)
      (hs : AcceptsFields field next es last) : AcceptsFields field known ((key, value) :: es) last

theorem AcceptsFields.append {field : String → σ → Reader σ} {known next last : σ}
    {es es' : List (String × List Shape)} (h : AcceptsFields field known es next)
    (h' : AcceptsFields field next es' last) : AcceptsFields field known (es ++ es') last := by
  induction h with
  | nil => exact h'
  | cons h _ ih => exact .cons h (ih h')

theorem nextKey_eq {first : Bool} {key : String} {ts : List Token}
    (hts : ts.map Token.shape = keyShapes first key) (us : List Token) :
    nextKey first (ts ++ us) = .ok (some (key, us)) := by
  cases first with
  | true =>
    obtain ⟨t, rfl, ht⟩ := List.map_eq_singleton_iff.mp hts
    simp [nextKey, nextKey.key, ht, literalShape, Except.map]
  | false =>
    obtain ⟨c, ts, rfl, hc, hts⟩ := List.map_eq_cons_iff.mp hts
    obtain ⟨t, rfl, ht⟩ := List.map_eq_singleton_iff.mp hts
    simp [nextKey, nextKey.key, hc, ht, literalShape, Except.map]

theorem length_le_fieldShapes (first : Bool) (es : List (String × List Shape)) :
    es.length ≤ (fieldShapes first es).length := by
  induction es generalizing first with
  | nil => exact Nat.zero_le _
  | cons e es ih =>
    have := ih false
    simp only [fieldShapes, List.length_append, List.length_cons]
    omega

theorem fieldShapes_append (first : Bool) (es es' : List (String × List Shape)) :
    fieldShapes first (es ++ es') =
      fieldShapes first es ++ fieldShapes (first && es.isEmpty) es' := by
  induction es generalizing first with
  | nil =>
    rw [List.nil_append, List.isEmpty_nil, Bool.and_true]
    rfl
  | cons e es ih =>
    rw [List.cons_append, fieldShapes, fieldShapes, ih, List.isEmpty_cons, Bool.and_false,
      Bool.false_and, List.append_assoc, List.append_assoc]

section Fields

variable {field : String → σ → Reader σ} {known last : σ} {es : List (String × List Shape)}

/-- Reading goes on behind fields that are accepted. -/
theorem readFields_append (h : AcceptsFields field known es last) (fuel : Nat) {first : Bool}
    {ts : List Token} (hts : ts.map Token.shape = fieldShapes first es) (us : List Token) :
    readFields field (fuel + es.length) first known (ts ++ us) =
      readFields field fuel (first && es.isEmpty) last us := by
  induction h generalizing first ts with
  | nil =>
    rw [List.map_eq_nil_iff.mp hts, List.isEmpty_nil, Bool.and_true]
    rfl
  | @cons known next last key value es h hs ih =>
    obtain ⟨keys, ts, rfl, hkeys, hts⟩ := List.map_eq_append_iff.mp hts
    obtain ⟨values, ts, rfl, hvalues, hts⟩ := List.map_eq_append_iff.mp hts
    rw [List.append_assoc, List.append_assoc, List.length_cons, ← Nat.add_assoc, readFields,
      nextKey_eq hkeys]
    simp only [bind, Except.bind, h values (ts ++ us) hvalues, ih hts, Bool.false_and,
      List.isEmpty_cons, Bool.and_false]

/-- Fuel for every token is enough to read past fields that are accepted. -/
theorem readFields_past (h : AcceptsFields field known es last) {ts : List Token}
    (hts : ts.map Token.shape = fieldShapes true es) (us : List Token) :
    ∃ fuel, readFields field ((ts ++ us).length + 1) true known (ts ++ us) =
      readFields field (fuel + 1) es.isEmpty last us := by
  -- A field has at least one token, so there is fuel left for what follows.
  have hlength := length_le_fieldShapes true es
  rw [← hts, List.length_map] at hlength
  obtain ⟨fuel, hfuel⟩ : ∃ fuel, (ts ++ us).length + 1 = (fuel + 1) + es.length := by
    refine ⟨(ts ++ us).length - es.length, ?_⟩
    rw [List.length_append]
    omega
  refine ⟨fuel, ?_⟩
  rw [hfuel, readFields_append h _ hts, Bool.true_and]

/-- What an object stands for, as it is read behind its brace. -/
def readObjectWith (field : String → σ → Reader σ) (start : σ)
    (finish : σ → List Token → Except Fault α) : Reader α := fun ts => do
  let (known, ts) ← readFields field (ts.length + 1) true start ts
  return (← finish known ts, ts.drop 1)

/-- An object is accepted if its fields are. -/
theorem accepts_object {finish : σ → List Token → Except Fault α} {x : α}
    (h : AcceptsFields field known es last) (hfinish : ∀ ts, finish last ts = .ok x) :
    Accepts (readObjectWith field known finish) (fieldShapes true es ++ [.closeBrace]) x := by
  intro ts us hts
  obtain ⟨fields, close, rfl, hfields, hclose⟩ := List.map_eq_append_iff.mp hts
  obtain ⟨t, rfl, ht⟩ := List.map_eq_singleton_iff.mp hclose
  obtain ⟨fuel, hpast⟩ := readFields_past h hfields ([t] ++ us)
  rw [readObjectWith, List.append_assoc, hpast, List.singleton_append, readFields]
  simp [nextKey, ht, hfinish, bind, Except.bind, pure, Except.pure]

/-- An object is rejected with its first field that is not accepted. -/
theorem rejects_object (finish : σ → List Token → Except Fault α) {key : String}
    {value rest : List Shape} {cause : Cause} {es' : List (String × List Shape)}
    (h : AcceptsFields field known es last)
    (hvalue : Rejects (field key last) (.colon :: value) cause) :
    Rejects (readObjectWith field known finish)
      (fieldShapes true (es ++ (key, value) :: es') ++ rest) cause := by
  intro ts us hts
  rw [fieldShapes_append, Bool.true_and, fieldShapes, List.append_assoc, List.append_assoc,
    List.append_assoc] at hts
  obtain ⟨fields, ts, rfl, hfields, hts⟩ := List.map_eq_append_iff.mp hts
  obtain ⟨keys, ts, rfl, hkeys, hts⟩ := List.map_eq_append_iff.mp hts
  obtain ⟨values, ts, rfl, hvalues, -⟩ := List.map_eq_append_iff.mp hts
  obtain ⟨fuel, hpast⟩ := readFields_past h hfields (keys ++ (values ++ ts) ++ us)
  obtain ⟨place, hplace⟩ := hvalue values (ts ++ us) hvalues
  refine ⟨place, ?_⟩
  rw [readObjectWith, List.append_assoc, hpast, List.append_assoc, List.append_assoc, readFields,
    nextKey_eq hkeys]
  simp only [bind, Except.bind, hplace]

end Fields

/-- The shapes of the elements of a list. -/
def elementShapes (first : Bool) : List (List Shape) → List Shape
  | [] => []
  | e :: es => separatorShapes first ++ (e ++ elementShapes false es)

/-- The shapes of a list. -/
def listShapes (es : List (List Shape)) : List Shape :=
  .openBracket :: (elementShapes true es ++ [.closeBracket])

/-- The shapes of a value, which does not start like the end of a list. -/
def Opens (shapes : List Shape) : Prop := ∃ shape ∈ shapes.head?, shape ≠ .closeBracket

theorem nextElement_first {t : Token} (ht : t.shape ≠ .closeBracket) (ts : List Token) :
    nextElement true (t :: ts) = .ok (some (t :: ts)) := by
  cases hshape : t.shape <;> first | exact absurd hshape ht | simp only [nextElement, hshape]

theorem nextElement_next {c t : Token} (hc : c.shape = .comma) (ht : t.shape ≠ .closeBracket)
    (ts : List Token) : nextElement false (c :: t :: ts) = .ok (some (t :: ts)) := by
  cases hshape : t.shape <;> first | exact absurd hshape ht | simp only [nextElement, hc, hshape]

theorem nextElement_eq {first : Bool} {separator ts : List Token} {value : List Shape}
    (hseparator : separator.map Token.shape = separatorShapes first) (hvalue : Opens value)
    (hts : ts.map Token.shape = value) (us : List Token) :
    nextElement first (separator ++ (ts ++ us)) = .ok (some (ts ++ us)) := by
  obtain ⟨shape, hshape, hclose⟩ := hvalue
  cases ts with
  | nil =>
    rw [← hts] at hshape
    cases hshape
  | cons t ts =>
    have ht : t.shape ≠ .closeBracket := by
      rw [← hts] at hshape
      cases hshape
      exact hclose
    cases first with
    | true =>
      rw [List.map_eq_nil_iff.mp hseparator]
      exact nextElement_first ht _
    | false =>
      obtain ⟨c, rfl, hc⟩ := List.map_eq_singleton_iff.mp hseparator
      exact nextElement_next hc ht _

theorem elementShapes_append (first : Bool) (es es' : List (List Shape)) :
    elementShapes first (es ++ es') =
      elementShapes first es ++ elementShapes (first && es.isEmpty) es' := by
  induction es generalizing first with
  | nil =>
    rw [List.nil_append, List.isEmpty_nil, Bool.and_true]
    rfl
  | cons e es ih =>
    rw [List.cons_append, elementShapes, elementShapes, ih, List.isEmpty_cons, Bool.and_false,
      Bool.false_and, List.append_assoc, List.append_assoc]

section Elements

variable {element : Reader α} {es : List (List Shape)} {xs : List α}

theorem length_le_elementShapes {first : Bool}
    (h : List.Forall₂ (fun e x => Opens e ∧ Accepts element e x) es xs) :
    es.length ≤ (elementShapes first es).length := by
  induction h generalizing first with
  | nil => exact Nat.zero_le _
  | @cons e x es xs h hs ih =>
    obtain ⟨shape, hshape, -⟩ := h.1
    have he := List.length_pos_of_mem (List.mem_of_head? hshape)
    have := @ih false
    simp only [elementShapes, List.length_append, List.length_cons]
    omega

/-- Reading goes on behind elements that are accepted. -/
theorem readElements_append (h : List.Forall₂ (fun e x => Opens e ∧ Accepts element e x) es xs)
    (fuel : Nat) {first : Bool} {ts : List Token}
    (hts : ts.map Token.shape = elementShapes first es) (us : List Token) :
    readElements element (fuel + es.length) first (ts ++ us) =
      (readElements element fuel (first && es.isEmpty) us).map fun r => (xs ++ r.1, r.2) := by
  induction h generalizing first ts with
  | nil =>
    rw [List.map_eq_nil_iff.mp hts, List.isEmpty_nil, Bool.and_true]
    exact (congrFun Except.map_id _).symm
  | @cons e x es xs h hs ih =>
    obtain ⟨separator, ts, rfl, hseparator, hts⟩ := List.map_eq_append_iff.mp hts
    obtain ⟨values, ts, rfl, hvalues, hts⟩ := List.map_eq_append_iff.mp hts
    rw [List.append_assoc, List.append_assoc, List.length_cons, ← Nat.add_assoc, readElements,
      nextElement_eq hseparator h.1 hvalues]
    simp only [bind, Except.bind, h.2 values (ts ++ us) hvalues, ih hts, Bool.false_and,
      List.isEmpty_cons, Bool.and_false]
    cases readElements element fuel false us <;> rfl

/-- Fuel for every token is enough to read past elements that are accepted. -/
theorem readElements_past (h : List.Forall₂ (fun e x => Opens e ∧ Accepts element e x) es xs)
    {ts : List Token} (hts : ts.map Token.shape = elementShapes true es) (us : List Token) :
    ∃ fuel, readElements element ((ts ++ us).length + 1) true (ts ++ us) =
      (readElements element (fuel + 1) es.isEmpty us).map fun r => (xs ++ r.1, r.2) := by
  have hlength := @length_le_elementShapes _ _ _ _ true h
  rw [← hts, List.length_map] at hlength
  obtain ⟨fuel, hfuel⟩ : ∃ fuel, (ts ++ us).length + 1 = (fuel + 1) + es.length := by
    refine ⟨(ts ++ us).length - es.length, ?_⟩
    rw [List.length_append]
    omega
  refine ⟨fuel, ?_⟩
  rw [hfuel, readElements_append h _ hts, Bool.true_and]

theorem readList_openBracket (quote : String → String) {left : Nat} (hleft : 0 < left) {t : Token}
    (ht : t.shape = .openBracket) (ts : List Token) :
    readList quote left element (t :: ts) = readElements element (ts.length + 1) true ts := by
  simp only [readList, ht, enter_of_pos hleft]

/-- A list is accepted if its elements are. -/
theorem accepts_readList (quote : String → String) {left : Nat} (hleft : 0 < left)
    (h : List.Forall₂ (fun e x => Opens e ∧ Accepts element e x) es xs) :
    Accepts (readList quote left element) (listShapes es) xs := by
  intro ts us hts
  obtain ⟨t, ts, rfl, ht, hts⟩ := List.map_eq_cons_iff.mp hts
  obtain ⟨elements, close, rfl, helements, hclose⟩ := List.map_eq_append_iff.mp hts
  obtain ⟨c, rfl, hc⟩ := List.map_eq_singleton_iff.mp hclose
  obtain ⟨fuel, hpast⟩ := readElements_past h helements ([c] ++ us)
  rw [List.cons_append, readList_openBracket quote hleft ht, List.append_assoc, hpast,
    List.singleton_append, readElements]
  simp [nextElement, hc, bind, Except.bind, pure, Except.pure, Except.map]

/-- A list is rejected with its first element that is not accepted. -/
theorem rejects_readList (quote : String → String) {left : Nat} (hleft : 0 < left)
    {value : List Shape} {cause : Cause} {es' : List (List Shape)}
    (h : List.Forall₂ (fun e x => Opens e ∧ Accepts element e x) es xs) (hopens : Opens value)
    (hvalue : Rejects element value cause) :
    Rejects (readList quote left element) (listShapes (es ++ value :: es')) cause := by
  intro ts us hts
  obtain ⟨t, ts, rfl, ht, hts⟩ := List.map_eq_cons_iff.mp hts
  rw [elementShapes_append, Bool.true_and, elementShapes, List.append_assoc, List.append_assoc,
    List.append_assoc] at hts
  obtain ⟨elements, ts, rfl, helements, hts⟩ := List.map_eq_append_iff.mp hts
  obtain ⟨separator, ts, rfl, hseparator, hts⟩ := List.map_eq_append_iff.mp hts
  obtain ⟨values, ts, rfl, hvalues, -⟩ := List.map_eq_append_iff.mp hts
  obtain ⟨fuel, hpast⟩ := readElements_past h helements (separator ++ (values ++ ts) ++ us)
  obtain ⟨place, hplace⟩ := hvalue values (ts ++ us) hvalues
  refine ⟨place, ?_⟩
  rw [List.cons_append, readList_openBracket quote hleft ht, List.append_assoc, hpast,
    List.append_assoc, List.append_assoc, readElements, nextElement_eq hseparator hopens hvalues]
  simp only [bind, Except.bind, hplace, Except.map]

end Elements

section Element

variable {element : Reader α} {shapes : List Shape} {x : α} {y : β}

theorem accepts_closeList (x : α) :
    Accepts (fun ts => do return (x, ← closeList ts)) [.closeBracket] x := by
  intro ts us hts
  obtain ⟨t, rfl, ht⟩ := List.map_eq_singleton_iff.mp hts
  have hclose : closeList (t :: us) = .ok us := by simp only [closeList, ht]
  dsimp only
  rw [List.singleton_append, hclose]
  rfl

theorem accepts_requiredElement (h : Accepts element shapes x) (hopens : Opens shapes) (index : Nat)
    (expected : String) :
    Accepts (requiredElement element index expected) (separatorShapes (index == 0) ++ shapes) x := by
  intro ts us hts
  obtain ⟨separator, ts, rfl, hseparator, hts⟩ := List.map_eq_append_iff.mp hts
  rw [requiredElement, List.append_assoc, nextElement_eq hseparator hopens hts]
  exact h ts us hts

theorem accepts_optionalElement (h : Accepts element shapes x) (hopens : Opens shapes) (default : α) :
    Accepts (optionalElement element default) (separatorShapes false ++ shapes) x := by
  intro ts us hts
  obtain ⟨separator, ts, rfl, hseparator, hts⟩ := List.map_eq_append_iff.mp hts
  rw [optionalElement, List.append_assoc, nextElement_eq hseparator hopens hts]
  exact h ts us hts

/-- At the end of a list an element that may be missing has its default. -/
theorem accepts_omitted {f : α × List Token → Except Fault (β × List Token)} {default : α}
    (h : Accepts (fun ts => f (default, ts)) [.closeBracket] y) :
    Accepts (fun ts => optionalElement element default ts >>= f) [.closeBracket] y := by
  intro ts us hts
  obtain ⟨t, rfl, ht⟩ := List.map_eq_singleton_iff.mp hts
  have hnext : optionalElement element default ([t] ++ us) = .ok (default, [t] ++ us) := by
    rw [List.singleton_append, optionalElement]
    simp only [nextElement, ht]
    rfl
  dsimp only
  rw [hnext]
  exact h [t] us hts

end Element

/-- What holds at first and is kept by every field holds of what is read of an object. -/
theorem readFields_invariant {field : String → σ → Reader σ} (P : σ → Prop)
    (hfield : ∀ key known ts next us, P known → field key known ts = .ok (next, us) → P next)
    {fuel : Nat} {first : Bool} {known last : σ} {ts us : List Token} (hknown : P known)
    (h : readFields field fuel first known ts = .ok (last, us)) : P last := by
  induction fuel generalizing first known ts with
  | zero => cases h
  | succ fuel ih =>
    obtain ⟨key, -, h⟩ := bind_eq_ok.mp h
    match key, h with
    | none, h =>
      cases h
      exact hknown
    | some (key, ts), h =>
      obtain ⟨⟨next, ts'⟩, hnext, h⟩ := bind_eq_ok.mp h
      exact ih (hfield _ _ _ _ _ hknown hnext) h

/-- What holds of every element that is read holds of the elements of a list. -/
theorem readElements_forall {element : Reader α} (P : α → Prop)
    (helement : ∀ ts x us, element ts = .ok (x, us) → P x) {fuel : Nat} {first : Bool}
    {ts us : List Token} {xs : List α} (h : readElements element fuel first ts = .ok (xs, us)) :
    ∀ x ∈ xs, P x := by
  induction fuel generalizing first ts xs with
  | zero => cases h
  | succ fuel ih =>
    obtain ⟨next, -, h⟩ := bind_eq_ok.mp h
    match next, h with
    | none, h =>
      cases h
      exact nofun
    | some ts, h =>
      obtain ⟨⟨x, ts'⟩, hx, h⟩ := bind_eq_ok.mp h
      obtain ⟨⟨xs', ts''⟩, hxs, h⟩ := bind_eq_ok.mp h
      cases h
      exact List.forall_mem_cons.mpr ⟨helement _ _ _ hx, ih hxs⟩

/-- The value was read by the reader, somewhere. -/
def ReadBy (r : Reader α) (x : α) : Prop := ∃ ts us, r ts = .ok (x, us)

theorem readList_eq_ok {quote : String → String} {left : Nat} {element : Reader α}
    {ts us : List Token} {xs : List α} (h : readList quote left element ts = .ok (xs, us)) :
    ∀ x ∈ xs, ReadBy element x := by
  cases ts with
  | nil => cases h
  | cons t ts =>
    unfold readList at h
    dsimp only at h
    split at h
    · exact readElements_forall _ (fun _ _ _ hx => ⟨_, _, hx⟩) (enter_eq_ok.mp h).2
    · cases h

theorem newField_eq_ok {name : String} {old x : Option α} {r : Reader α} {ts us : List Token}
    (h : newField name old r ts = .ok (x, us)) : ∃ y ts, x = some y ∧ r ts = .ok (y, us) := by
  rw [newField] at h
  split at h
  · cases h
  · obtain ⟨ts', -, h⟩ := bind_eq_ok.mp h
    obtain ⟨⟨y, us'⟩, hy, h⟩ := bind_eq_ok.mp h
    cases h
    exact ⟨y, ts', rfl, hy⟩

theorem requiredElement_eq_ok {element : Reader α} {index : Nat} {expected : String}
    {ts us : List Token} {x : α} (h : requiredElement element index expected ts = .ok (x, us)) :
    ∃ ts, element ts = .ok (x, us) := by
  obtain ⟨next, -, h⟩ := bind_eq_ok.mp h
  match next, h with
  | some ts, h => exact ⟨ts, h⟩

theorem optionalElement_eq_ok {element : Reader α} {default x : α} {ts us : List Token}
    (h : optionalElement element default ts = .ok (x, us)) :
    x = default ∨ ∃ ts, element ts = .ok (x, us) := by
  obtain ⟨next, -, h⟩ := bind_eq_ok.mp h
  match next, h with
  | none, h =>
    cases h
    exact .inl rfl
  | some ts, h => exact .inr ⟨ts, h⟩

theorem requireField_eq_ok {name : String} {value : Option α} {ts : List Token} {x : α}
    (h : requireField name value ts = .ok x) : value = some x := by
  cases value with
  | none => cases h
  | some y =>
    cases h
    rfl

/-- A document is read to its end. -/
theorem readDocument_eq_ok {r : Reader α} {document : String} {x : α} :
    readDocument r document = .ok x ↔ r (tokens document) = .ok (x, []) := by
  rw [readDocument]
  cases hr : r (tokens document) with
  | error fault => exact ⟨nofun, nofun⟩
  | ok found =>
    obtain ⟨y, rest⟩ := found
    cases rest with
    | nil => exact ⟨fun h => by cases h; rfl, fun h => by cases h; rfl⟩
    | cons t rest => exact ⟨nofun, nofun⟩

theorem readDocument_eq_error {r : Reader α} {document : String} {fault : Fault}
    (h : r (tokens document) = .error fault) :
    readDocument r document = .error (fault.locate document) := by
  rw [readDocument, h]
  rfl

end Json
end VhdlLowering
