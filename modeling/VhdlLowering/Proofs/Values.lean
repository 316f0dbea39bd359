import VhdlLowering.Proofs.Reading
import VhdlLowering.Proofs.Scanning

/-!
# Shapes of values

The shapes of the tokens of a value tell whether it is a list or an object, and what its items or its
members are. A value that nobody wants is passed over, however it is written and nested.
-/

namespace VhdlLowering
namespace Json

theorem exists_append_of_forall₂ {α β : Type} {R : α → β → Prop} {as bs : List α} {cs : List β}
    (h : List.Forall₂ R (as ++ bs) cs) :
    ∃ cs₁ cs₂, cs = cs₁ ++ cs₂ ∧ List.Forall₂ R as cs₁ ∧ List.Forall₂ R bs cs₂ :=
  ⟨cs.take as.length, cs.drop as.length, (List.take_append_drop _ _).symm,
    (List.forall₂_take_append cs as bs h.flip).flip, (List.forall₂_drop_append cs as bs h.flip).flip⟩

theorem exists_of_mem_forall₂ {α β : Type} {R : α → β → Prop} {as : List α} {bs : List β}
    (h : List.Forall₂ R as bs) {a : α} (ha : a ∈ as) : ∃ b ∈ bs, R a b := by
  induction h with
  | nil => cases ha
  | cons hab _ ih =>
    rcases List.mem_cons.mp ha with rfl | ha
    · exact ⟨_, List.mem_cons_self, hab⟩
    · obtain ⟨b, hb, hR⟩ := ih ha
      exact ⟨b, List.mem_cons_of_mem _ hb, hR⟩

theorem exists_separatorShapes {first : Bool} {ls : List Lexeme} {shapes : List Shape}
    (h : List.Forall₂ Lexeme.Shows (Value.separator first ++ ls) shapes) :
    ∃ rest, shapes = separatorShapes first ++ rest ∧ List.Forall₂ Lexeme.Shows ls rest := by
  cases first with
  | true => exact ⟨shapes, rfl, h⟩
  | false =>
    cases h with
    | cons hs h => exact ⟨_, congrArg (· :: _) hs, h⟩

namespace Value

@[elab_as_elim]
theorem induction {P : Value → Prop} (word : ∀ w, P (.word w)) (numeral : ∀ x, P (.numeral x))
    (literal : ∀ l, P (.literal l)) (list : ∀ vs, (∀ v ∈ vs, P v) → P (.list vs))
    (object : ∀ ms : List (Literal × Value), (∀ m ∈ ms, P m.2) → P (.object ms)) : ∀ v, P v
  | .word w => word w
  | .numeral x => numeral x
  | .literal l => literal l
  | .list vs => list vs fun v _ => induction word numeral literal list object v
  | .object ms => object ms fun m hm =>
    have : sizeOf m.2 < 1 + sizeOf ms := by
      have := List.sizeOf_lt_of_mem hm
      obtain ⟨key, v⟩ := m
      simp only [Prod.mk.sizeOf_spec] at this ⊢
      omega
    induction word numeral literal list object m.2

/-- The shapes of what the lexemes of the value are scanned as. -/
def HasShapes (v : Value) (shapes : List Shape) : Prop := List.Forall₂ Lexeme.Shows v.lexemes shapes

theorem hasShapes_tokens (v : Value) (gaps : Nat → List Blank) :
    v.HasShapes ((tokens (v.document gaps)).map Token.shape) :=
  List.forall₂_map_right_iff.mpr (v.shown_tokens gaps)

/-- No value starts like the end of a list. -/
theorem HasShapes.opens {v : Value} {shapes : List Shape} (h : v.HasShapes shapes) :
    Opens shapes := by
  rw [HasShapes] at h
  cases v with
  | word w =>
    cases h with
    | cons hs => exact ⟨_, rfl, hs ▸ nofun⟩
  | numeral x =>
    cases h with
    | cons hs =>
      obtain ⟨value, rfl, -⟩ := hs
      exact ⟨_, rfl, nofun⟩
  | literal l =>
    cases h with
    | cons hs =>
      obtain ⟨value, rfl, -⟩ := hs
      exact ⟨_, rfl, nofun⟩
  | list vs =>
    cases h with
    | cons hs => exact ⟨_, rfl, hs ▸ nofun⟩
  | object ms =>
    cases h with
    | cons hs => exact ⟨_, rfl, hs ▸ nofun⟩

/-- A literal that spells a text is scanned with this text. -/
theorem HasShapes.eq_of_spells {l : Literal} {s : String} {shapes : List Shape}
    (h : (literal l).HasShapes shapes) (hl : l.Spells s) : shapes = [literalShape s] := by
  obtain ⟨_, _, ⟨value, rfl, hvalue⟩, hnil, rfl⟩ := List.forall₂_cons_left_iff.mp h
  cases hnil
  rw [hvalue s hl, literalShape]

theorem HasShapes.eq_of_natural {n : UInt32} {shapes : List Shape}
    (h : (numeral (.natural n.toNat)).HasShapes shapes) : shapes = [numeralShape n] := by
  obtain ⟨_, _, ⟨value, rfl, hvalue⟩, hnil, rfl⟩ := List.forall₂_cons_left_iff.mp h
  cases hnil
  rw [hvalue n.toNat (n.toNat_lt.trans (by decide)) rfl, numeralShape]

end Value

section Parts

variable {vs : List Value} {ms : List (Literal × Value)} {shapes : List Shape} {first : Bool}

theorem exists_elementShapes (h : List.Forall₂ Lexeme.Shows (Value.itemLexemes first vs) shapes) :
    ∃ es, List.Forall₂ Value.HasShapes vs es ∧ shapes = elementShapes first es := by
  induction vs generalizing first shapes with
  | nil =>
    cases h
    exact ⟨[], .nil, rfl⟩
  | cons v vs ih =>
    rw [Value.itemLexemes] at h
    obtain ⟨_, rfl, hrest⟩ := exists_separatorShapes h
    obtain ⟨e, _, rfl, he, hitems⟩ := exists_append_of_forall₂ hrest
    obtain ⟨es, hes, rfl⟩ := ih hitems
    exact ⟨e :: es, .cons he hes, rfl⟩

/-- The shapes of a list are those of its items. -/
theorem exists_listShapes (h : (Value.list vs).HasShapes shapes) :
    ∃ es, List.Forall₂ Value.HasShapes vs es ∧ shapes = listShapes es := by
  rw [Value.HasShapes, Value.lexemes] at h
  cases h with
  | cons hopen h =>
    obtain ⟨_, _, rfl, hitems, hclose⟩ := exists_append_of_forall₂ h
    obtain ⟨es, hes, rfl⟩ := exists_elementShapes hitems
    cases hclose with
    | cons hclose hnil =>
      cases hnil
      cases hopen
      cases hclose
      exact ⟨es, hes, rfl⟩

/-- A member with a key that spells a text, and what is scanned for both. -/
def IsMember (m : Literal × Value) (e : String × List Shape) : Prop :=
  m.1.Spells e.1 ∧ m.2.HasShapes e.2

theorem exists_fieldShapes (hkeys : ∀ m ∈ ms, ∃ key, m.1.Spells key)
    (h : List.Forall₂ Lexeme.Shows (Value.memberLexemes first ms) shapes) :
    ∃ es, List.Forall₂ IsMember ms es ∧ shapes = fieldShapes first es := by
  induction ms generalizing first shapes with
  | nil =>
    cases h
    exact ⟨[], .nil, rfl⟩
  | cons m ms ih =>
    obtain ⟨⟨key, hkey⟩, hkeys⟩ := List.forall_mem_cons.mp hkeys
    rw [Value.memberLexemes] at h
    obtain ⟨_, rfl, hmember⟩ := exists_separatorShapes h
    obtain ⟨_, _, ⟨value, rfl, hvalue⟩, hcolon, rfl⟩ := List.forall₂_cons_left_iff.mp hmember
    obtain ⟨_, _, rfl, hvalues, rfl⟩ := List.forall₂_cons_left_iff.mp hcolon
    obtain ⟨e, _, rfl, he, hmembers⟩ := exists_append_of_forall₂ hvalues
    obtain ⟨es, hes, rfl⟩ := ih hkeys hmembers
    refine ⟨(key, e) :: es, .cons ⟨hkey, he⟩ hes, ?_⟩
    rw [hvalue key hkey, fieldShapes, keyShapes, List.append_assoc]
    rfl

/-- The shapes of an object are those of its members. -/
theorem exists_objectShapes (hkeys : ∀ m ∈ ms, ∃ key, m.1.Spells key)
    (h : (Value.object ms).HasShapes shapes) :
    ∃ es, List.Forall₂ IsMember ms es ∧ shapes = objectShapes es := by
  rw [Value.HasShapes, Value.lexemes] at h
  cases h with
  | cons hopen h =>
    obtain ⟨_, _, rfl, hmembers, hclose⟩ := exists_append_of_forall₂ h
    obtain ⟨es, hes, rfl⟩ := exists_fieldShapes hkeys hmembers
    cases hclose with
    | cons hclose hnil =>
      cases hnil
      cases hopen
      cases hclose
      exact ⟨es, hes, rfl⟩

end Parts

/-- Tokens of the shapes lead from one state to the other, whatever follows. -/
def Passes (a : Awaited) (shapes : List Shape) (b : Awaited) : Prop :=
  ∀ ts us : List Token, ts.map Token.shape = shapes → a.run (ts ++ us) = b.run us

namespace Passes

variable {a b c : Awaited} {shapes shapes' : List Shape} {bs : List Bracket}

theorem append (h : Passes a shapes b) (h' : Passes b shapes' c) :
    Passes a (shapes ++ shapes') c := by
  intro ts us hts
  obtain ⟨ts, ts', rfl, hts, hts'⟩ := List.map_eq_append_iff.mp hts
  rw [List.append_assoc, h ts _ hts, h' ts' us hts']

theorem run_cons (ha : a ≠ .nothing) (t : Token) (ts : List Token) :
    a.run (t :: ts) = a.step t >>= fun b => b.run ts := by
  cases a <;> first | rfl | exact absurd rfl ha

theorem token {shape : Shape} (ha : a ≠ .nothing) (h : ∀ t : Token, t.shape = shape → a.step t = .ok b) :
    Passes a [shape] b := by
  intro ts us hts
  obtain ⟨t, rfl, ht⟩ := List.map_eq_singleton_iff.mp hts
  rw [List.singleton_append, run_cons ha, h t ht]
  rfl

/-- The state in front of an item or the end of a bracket. -/
def awaited (first : Bool) (b : Bracket) (bs : List Bracket) : Awaited :=
  if first then .firstItem b bs else .separator b bs

theorem close_list (first : Bool) : Passes (awaited first .list bs) [.closeBracket] (.ofComplete bs) := by
  cases first <;> exact token nofun fun t ht => by
    simp [awaited, Awaited.step, Bracket.closedBy, ht]

theorem close_object (first : Bool) : Passes (awaited first .object bs) [.closeBrace] (.ofComplete bs) := by
  cases first <;> exact token nofun fun t ht => by
    simp [awaited, Awaited.step, Bracket.closedBy, ht]

/-- A first item is passed over as any other. -/
theorem firstItem (hopens : Opens shapes) (h : Passes (.value (.list :: bs)) shapes b) :
    Passes (.firstItem .list bs) shapes b := by
  intro ts us hts
  rw [← h ts us hts]
  obtain ⟨shape, hshape, hclose⟩ := hopens
  cases ts with
  | nil =>
    rw [← hts] at hshape
    cases hshape
  | cons t ts =>
    have ht : Bracket.closedBy .list t.shape = false := by
      rw [← hts] at hshape
      cases hshape
      generalize t.shape = shape at hclose
      cases shape <;> first | rfl | exact absurd rfl hclose
    have hstep : (Awaited.firstItem .list bs).step t = (Awaited.value (.list :: bs)).step t := by
      simp only [Awaited.step, ht, Bool.false_eq_true, if_false]
    rw [List.cons_append, run_cons (a := .firstItem .list bs) nofun,
      run_cons (a := .value (.list :: bs)) nofun, hstep]

theorem comma (b : Bracket) (bs : List Bracket) :
    Passes (.separator b bs) [.comma] (.ofItem b bs) :=
  token nofun fun t ht => by cases b <;> simp [Awaited.step, Bracket.closedBy, ht]

theorem item (first : Bool) (hopens : Opens shapes) (h : Passes (.value (.list :: bs)) shapes b) :
    Passes (awaited first .list bs) (separatorShapes first ++ shapes) b := by
  cases first with
  | true => exact firstItem hopens h
  | false => exact (comma .list bs).append h

theorem colon (bs : List Bracket) : Passes (.colon bs) [.colon] (.value (.object :: bs)) :=
  token nofun fun t ht => by simp [Awaited.step, ht]

theorem key (first : Bool) (value : Except Fault String) :
    Passes (awaited first .object bs) (separatorShapes first ++ [.literal value (.ok ())])
      (.colon bs) := by
  have hkey {a : Awaited} (ha : a ≠ .nothing)
      (h : ∀ t : Token, t.shape = .literal value (.ok ()) → a.step t = Awaited.stepKey bs t) :
      Passes a [.literal value (.ok ())] (.colon bs) :=
    token ha fun t ht => by rw [h t ht, Awaited.stepKey, ht]; rfl
  cases first with
  | true => exact hkey nofun fun t ht => by simp [awaited, Awaited.step, Bracket.closedBy, ht]
  | false => exact (comma .object bs).append (hkey nofun fun _ _ => rfl)

end Passes

section Ignored

variable {bs : List Bracket} {shapes : List Shape}

theorem passes_items {vs : List Value}
    (h : ∀ v ∈ vs, ∀ shapes, v.HasShapes shapes → ∀ bs, Passes (.value bs) shapes (.ofComplete bs))
    (first : Bool) (hshapes : List.Forall₂ Lexeme.Shows (Value.itemLexemes first vs) shapes) :
    Passes (Passes.awaited first .list bs) (shapes ++ [.closeBracket]) (.ofComplete bs) := by
  induction vs generalizing first shapes with
  | nil =>
    cases hshapes
    exact Passes.close_list first
  | cons v vs ih =>
    obtain ⟨hv, hvs⟩ := List.forall_mem_cons.mp h
    rw [Value.itemLexemes] at hshapes
    obtain ⟨_, rfl, hrest⟩ := exists_separatorShapes hshapes
    obtain ⟨e, _, rfl, he, hitems⟩ := exists_append_of_forall₂ hrest
    rw [← List.append_assoc, List.append_assoc]
    exact (Passes.item first (Value.HasShapes.opens he) (hv e he _)).append (ih hvs false hitems)

theorem passes_members {ms : List (Literal × Value)}
    (h : ∀ m ∈ ms, ∀ shapes, m.2.HasShapes shapes → ∀ bs,
      Passes (.value bs) shapes (.ofComplete bs))
    (first : Bool) (hshapes : List.Forall₂ Lexeme.Shows (Value.memberLexemes first ms) shapes) :
    Passes (Passes.awaited first .object bs) (shapes ++ [.closeBrace]) (.ofComplete bs) := by
  induction ms generalizing first shapes with
  | nil =>
    cases hshapes
    exact Passes.close_object first
  | cons m ms ih =>
    obtain ⟨hm, hms⟩ := List.forall_mem_cons.mp h
    rw [Value.memberLexemes] at hshapes
    obtain ⟨_, rfl, hmember⟩ := exists_separatorShapes hshapes
    obtain ⟨_, _, ⟨value, rfl, -⟩, hcolon, rfl⟩ := List.forall₂_cons_left_iff.mp hmember
    obtain ⟨_, _, rfl, hvalues, rfl⟩ := List.forall₂_cons_left_iff.mp hcolon
    obtain ⟨e, _, rfl, he, hmembers⟩ := exists_append_of_forall₂ hvalues
    have hpasses := (Passes.key first value).append <| (Passes.colon bs).append <|
      (hm e he (.object :: bs)).append (ih hms false hmembers)
    rw [List.append_assoc] at hpasses ⊢
    rw [List.cons_append, List.cons_append, List.append_assoc]
    exact hpasses

/-- A value is passed over, whatever brackets it stands in. -/
theorem Value.HasShapes.passes {v : Value} (h : v.HasShapes shapes) (bs : List Bracket) :
    Passes (.value bs) shapes (.ofComplete bs) := by
  induction v using Value.induction generalizing shapes bs with
  | word w =>
    obtain ⟨_, _, rfl, hnil, rfl⟩ := List.forall₂_cons_left_iff.mp h
    cases hnil
    exact .token nofun fun t ht => by rw [Awaited.step, Awaited.stepValue, ht]; rfl
  | numeral x =>
    obtain ⟨_, _, ⟨value, rfl, -⟩, hnil, rfl⟩ := List.forall₂_cons_left_iff.mp h
    cases hnil
    exact .token nofun fun t ht => by rw [Awaited.step, Awaited.stepValue, ht]; rfl
  | literal l =>
    obtain ⟨_, _, ⟨value, rfl, -⟩, hnil, rfl⟩ := List.forall₂_cons_left_iff.mp h
    cases hnil
    exact .token nofun fun t ht => by rw [Awaited.step, Awaited.stepValue, ht]; rfl
  | list vs ih =>
    obtain ⟨_, _, rfl, hbody, rfl⟩ := List.forall₂_cons_left_iff.mp h
    obtain ⟨items, _, rfl, hitems, hclose⟩ := exists_append_of_forall₂ hbody
    obtain ⟨_, _, rfl, hnil, rfl⟩ := List.forall₂_cons_left_iff.mp hclose
    cases hnil
    have hopen : Passes (.value bs) [.openBracket] (.firstItem .list bs) :=
      .token nofun fun t ht => by rw [Awaited.step, Awaited.stepValue, ht]
    exact hopen.append (passes_items (fun v hv shapes h bs => ih v hv h bs) true hitems)
  | object ms ih =>
    obtain ⟨_, _, rfl, hbody, rfl⟩ := List.forall₂_cons_left_iff.mp h
    obtain ⟨members, _, rfl, hmembers, hclose⟩ := exists_append_of_forall₂ hbody
    obtain ⟨_, _, rfl, hnil, rfl⟩ := List.forall₂_cons_left_iff.mp hclose
    cases hnil
    have hopen : Passes (.value bs) [.openBrace] (.firstItem .object bs) :=
      .token nofun fun t ht => by rw [Awaited.step, Awaited.stepValue, ht]
    exact hopen.append (passes_members (fun m hm shapes h bs => ih m hm h bs) true hmembers)

/-- A field whose value nobody wants is passed over. -/
theorem skipField_eq_ok {v : Value} (h : v.HasShapes shapes) {ts us : List Token}
    (hts : ts.map Token.shape = .colon :: shapes) : skipField (ts ++ us) = .ok us := by
  obtain ⟨c, ts, rfl, hc, hts⟩ := List.map_eq_cons_iff.mp hts
  have hafter : afterColon (c :: (ts ++ us)) = .ok (ts ++ us) := by rw [afterColon, hc]
  rw [skipField, List.cons_append, hafter]
  exact (h.passes [] ts us hts).trans (by rw [Awaited.ofComplete, Awaited.run])

end Ignored

end Json
end VhdlLowering
