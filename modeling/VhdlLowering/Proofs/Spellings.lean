import Mathlib.Data.List.Nodup
import VhdlLowering.Conversion
import VhdlLowering.Proofs.RoundTrip
import VhdlLowering.Proofs.Values

/-!
# Spellings of trees

A tree can be written in many ways: a record as an object with its members in any order and with others
between them, or as a list; what is empty left out or not; texts with any escapes, and any blanks.
However a tree is spelled, it is read as the same tree, and so lowered alike.
-/

namespace VhdlLowering

open Json

namespace Json

/-- A field of a record: its name, the values that spell it, and whether it may be left out. -/
structure RecordField where
  name : String
  IsSpelledBy : Value → Prop
  optional : Prop

/-- The members of an object that spells a record. They stand in any order, and there may be others
besides the fields, with any values. -/
structure SpellsObject (fields : List RecordField) (ms : List (Literal × Value)) : Prop where
  keys : ∀ m ∈ ms, ∃ key, m.1.Spells key
  once : ms.Pairwise fun m m' => ∀ f ∈ fields, m.1.Spells f.name → ¬m'.1.Spells f.name
  values : ∀ m ∈ ms, ∀ f ∈ fields, m.1.Spells f.name → f.IsSpelledBy m.2
  present : ∀ f ∈ fields, f.optional ∨ ∃ m ∈ ms, m.1.Spells f.name

/-- The items of a list that spells a record: one for each field, up to fields at the end that are left
out. -/
inductive SpellsList : List RecordField → List Value → Prop
  | omitted {fields : List RecordField} (h : ∀ f ∈ fields, f.optional) : SpellsList fields []
  | cons {f : RecordField} {fields : List RecordField} {v : Value} {vs : List Value}
      (h : f.IsSpelledBy v) (hs : SpellsList fields vs) : SpellsList (f :: fields) (v :: vs)

/-- A value that spells a record: an object or a list. -/
inductive SpellsRecord (fields : List RecordField) : Value → Prop
  | object {ms : List (Literal × Value)} (h : SpellsObject fields ms) : SpellsRecord fields (.object ms)
  | list {vs : List Value} (h : SpellsList fields vs) : SpellsRecord fields (.list vs)

/-- A field that may not be left out is spelled by the next item. -/
theorem SpellsList.exists_cons {f : RecordField} {fields : List RecordField} {vs : List Value}
    (h : SpellsList (f :: fields) vs) (hf : ¬f.optional) :
    ∃ v vs', vs = v :: vs' ∧ f.IsSpelledBy v ∧ SpellsList fields vs' := by
  cases h with
  | omitted h => exact absurd (h f List.mem_cons_self) hf
  | cons h hs => exact ⟨_, _, rfl, h, hs⟩

def Value.SpellsText (s : String) (v : Value) : Prop := ∃ l : Literal, v = .literal l ∧ l.Spells s

def Value.SpellsWord (n : UInt32) (v : Value) : Prop := v = .numeral (.natural n.toNat)

end Json

/-- A kind is spelled by its name; the mode has two names. -/
def Kind.IsSpelledBy (k : Kind) (v : Value) : Prop :=
  v.SpellsText k.name ∨ k = .rule .mode ∧ v.SpellsText "signal_mode"

def Span.recordFields (s : Span) : List RecordField :=
  [⟨"start", Value.SpellsWord s.start, False⟩, ⟨"end", Value.SpellsWord s.stop, False⟩]

namespace Node

mutual

/-- The values that spell a tree. -/
def IsSpelledBy : Node → Value → Prop
  | ⟨kind, span, text, cs⟩, v => SpellsRecord
      [⟨"kind", kind.IsSpelledBy, False⟩, ⟨"span", SpellsRecord span.recordFields, False⟩,
        ⟨"text", Value.SpellsText text, text = ""⟩,
        ⟨"children", fun w => ∃ vs, w = .list vs ∧ AreSpelledBy cs vs, cs = []⟩] v

def AreSpelledBy : List Node → List Value → Prop
  | [], [] => True
  | c :: cs, v :: vs => c.IsSpelledBy v ∧ AreSpelledBy cs vs
  | [], _ :: _ => False
  | _ :: _, [] => False

end

end Node

namespace Json

/-- Whatever spells a value is read as this value. -/
def Reads {α : Type} (r : Reader α) (IsSpelledBy : Value → Prop) (x : α) : Prop :=
  ∀ v shapes, IsSpelledBy v → v.HasShapes shapes → Accepts r shapes x

/-- Whatever items spell the fields are read, up to the end of the list, as this value. -/
def ReadsList {α : Type} (first : Bool) (r : Reader α) (fields : List RecordField) (x : α) : Prop :=
  ∀ vs es, SpellsList fields vs → List.Forall₂ Value.HasShapes vs es →
    Accepts r (elementShapes first es ++ [.closeBracket]) x

namespace ReadsList

variable {α β : Type} {element : Reader α} {next : α × List Token → Except Fault (β × List Token)}
  {f : RecordField} {fields : List RecordField} {x : α} {y : β}

theorem nil (first : Bool) (x : α) :
    ReadsList first (fun ts => do return (x, ← closeList ts)) [] x := by
  intro vs es hvs hes
  cases hvs
  cases hes
  exact accepts_closeList x

theorem required (hf : ¬f.optional) (h : Reads element f.IsSpelledBy x)
    (hnext : ReadsList false (fun ts => next (x, ts)) fields y) (index : Nat) (expected : String) :
    ReadsList (index == 0) (fun ts => requiredElement element index expected ts >>= next)
      (f :: fields) y := by
  intro vs es hvs hes
  obtain ⟨v, vs, rfl, hv, hvs⟩ := hvs.exists_cons hf
  rcases hes with _ | ⟨he, hes⟩
  have helement := h _ _ hv he
  rw [elementShapes, List.append_assoc, List.append_assoc, ← List.append_assoc]
  exact (accepts_requiredElement helement he.opens index expected).bind (hnext _ _ hvs hes)

theorem optional {default : α} (hf : f.optional → x = default) (h : Reads element f.IsSpelledBy x)
    (hnext : ReadsList false (fun ts => next (x, ts)) fields y) :
    ReadsList false (fun ts => optionalElement element default ts >>= next) (f :: fields) y := by
  intro vs es hvs hes
  cases hvs with
  | omitted hfields =>
    obtain ⟨hoptional, hfields⟩ := List.forall_mem_cons.mp hfields
    cases hes
    exact accepts_omitted (hf hoptional ▸ hnext [] [] (.omitted hfields) .nil)
  | cons hv hvs =>
    rcases hes with _ | ⟨he, hes⟩
    rw [elementShapes, List.append_assoc, List.append_assoc, ← List.append_assoc]
    exact (accepts_optionalElement (h _ _ hv he) he.opens default).bind (hnext _ _ hvs hes)

end ReadsList

section Objects

variable {α σ : Type} {field : String → σ → Reader σ} {state : List String → σ}
  {fields : List RecordField} {ms : List (Literal × Value)} {es : List (String × List Shape)}

/-- Reading a field takes what is known after some keys to what is known after one more. -/
structure ReadsFields (field : String → σ → Reader σ) (state : List String → σ)
    (fields : List RecordField) : Prop where
  known : ∀ f ∈ fields, ∀ v shapes, f.IsSpelledBy v → v.HasShapes shapes → ∀ seen, f.name ∉ seen →
    Accepts (field f.name (state seen)) (.colon :: shapes) (state (f.name :: seen))
  other : ∀ key, (∀ f ∈ fields, f.name ≠ key) → ∀ seen ts,
    field key (state seen) ts = do return (state (key :: seen), ← skipField ts)

/-- An object with all different keys. -/
theorem spellsObject_of_keys {keys : List String} (hkeys : keys.Nodup)
    (h : List.Forall₂ (fun m key => m.1.Spells key ∧
      ∀ f ∈ fields, f.name = key → f.IsSpelledBy m.2) ms keys)
    (hpresent : ∀ f ∈ fields, f.optional ∨ f.name ∈ keys) : SpellsObject fields ms where
  keys m hm := by
    obtain ⟨key, -, hkey, -⟩ := exists_of_mem_forall₂ h hm
    exact ⟨key, hkey⟩
  once := by
    clear hpresent
    induction h with
    | nil => exact .nil
    | @cons m key ms keys hm h ih =>
      obtain ⟨hkey, hkeys⟩ := List.nodup_cons.mp hkeys
      refine List.pairwise_cons.mpr ⟨fun m' hm' f _ hf hf' => hkey ?_, ih hkeys⟩
      obtain ⟨key', hmem, hkey', -⟩ := exists_of_mem_forall₂ h hm'
      rwa [hm.1.unique hf, ← hkey'.unique hf']
  values m hm f hf hspells := by
    obtain ⟨key, -, hkey, hvalue⟩ := exists_of_mem_forall₂ h hm
    exact hvalue f hf (hspells.unique hkey)
  present f hf := by
    refine (hpresent f hf).imp_right fun hmem => ?_
    obtain ⟨m, hm, hkey, -⟩ := exists_of_mem_forall₂ h.flip hmem
    exact ⟨m, hm, hkey⟩

theorem acceptsFields_members (h : ReadsFields field state fields)
    (hes : List.Forall₂ IsMember ms es)
    (honce : ms.Pairwise fun m m' => ∀ f ∈ fields, m.1.Spells f.name → ¬m'.1.Spells f.name)
    (hvalues : ∀ m ∈ ms, ∀ f ∈ fields, m.1.Spells f.name → f.IsSpelledBy m.2) (seen : List String)
    (hfresh : ∀ m ∈ ms, ∀ f ∈ fields, m.1.Spells f.name → f.name ∉ seen) :
    AcceptsFields field (state seen) es (state ((es.map Prod.fst).reverse ++ seen)) := by
  induction hes generalizing seen with
  | nil => exact .nil _
  | @cons m e ms es hm hes ih =>
    obtain ⟨hkey, hshapes⟩ := hm
    obtain ⟨hhead, htail⟩ := List.pairwise_cons.mp honce
    obtain ⟨hvalue, hvalues⟩ := List.forall_mem_cons.mp hvalues
    obtain ⟨hnew, hfresh⟩ := List.forall_mem_cons.mp hfresh
    have hfield : Accepts (field e.1 (state seen)) (.colon :: e.2) (state (e.1 :: seen)) := by
      by_cases hknown : ∃ f ∈ fields, f.name = e.1
      · obtain ⟨f, hf, hname⟩ := hknown
        rw [← hname] at hkey ⊢
        exact h.known f hf m.2 e.2 (hvalue f hf hkey) hshapes seen (hnew f hf hkey)
      · intro ts us hts
        rw [h.other e.1 (fun f hf hname => hknown ⟨f, hf, hname⟩), skipField_eq_ok hshapes hts]
        rfl
    have hrest := ih htail hvalues (e.1 :: seen) fun m' hm' f hf hspells hseen => by
      rcases List.mem_cons.mp hseen with hname | hseen
      · exact hhead m' hm' f hf (hname ▸ hkey) hspells
      · exact hfresh m' hm' f hf hspells hseen
    rw [List.map_cons, List.reverse_cons, List.append_assoc]
    exact .cons hfield hrest

/-- An object that spells a record is accepted. -/
theorem accepts_members (h : ReadsFields field state fields) {finish : σ → List Token → Except Fault α}
    {x : α} (hfinish : ∀ seen, (∀ f ∈ fields, f.optional ∨ f.name ∈ seen) →
      ∀ ts, finish (state seen) ts = .ok x) (hms : SpellsObject fields ms)
    (hes : List.Forall₂ IsMember ms es) :
    Accepts (readObjectWith field (state []) finish) (fieldShapes true es ++ [.closeBrace]) x := by
  refine accepts_object (acceptsFields_members h hes hms.once hms.values [] nofun) (hfinish _ ?_)
  intro f hf
  refine (hms.present f hf).imp_right fun ⟨m, hm, hspells⟩ => ?_
  obtain ⟨e, he, hkey, -⟩ := exists_of_mem_forall₂ hes hm
  rw [List.append_nil, List.mem_reverse]
  exact List.mem_map.mpr ⟨e, he, Literal.Spells.unique hkey hspells⟩

end Objects

end Json

theorem reads_readString (s : String) : Reads (readString Text.quote) (Value.SpellsText s) s := by
  rintro v shapes ⟨l, rfl, hl⟩ h
  rw [h.eq_of_spells hl]
  exact accepts_readString _ s

theorem reads_readWord32 (n : UInt32) : Reads (readWord32 Text.quote) (Value.SpellsWord n) n := by
  rintro v shapes rfl h
  rw [h.eq_of_natural]
  exact accepts_readWord32 _ n

theorem Kind.reads {k : Kind} (hk : k.IsNamed) : Reads Kind.read k.IsSpelledBy k := by
  intro v shapes hv h
  rcases hv with hv | ⟨rfl, hv⟩
  · have hread := (reads_readString _ v shapes hv h).map Kind.ofName
    rwa [ofName_name hk] at hread
  · exact (reads_readString _ v shapes hv h).map Kind.ofName

theorem spellsText_ofString (s : String) : Value.SpellsText s (.literal (.ofString s)) :=
  ⟨_, rfl, spells_ofString s⟩

/-- All fields in an object spell a record. -/
theorem spellsRecord_ofFields {fields : List RecordField} {values : List (String × Value)}
    (hkeys : (fields.map RecordField.name).Nodup)
    (h : List.Forall₂ (fun f m => f.name = m.1 ∧ f.IsSpelledBy m.2) fields values) :
    SpellsRecord fields (.ofFields values) := by
  have hnames : values.map Prod.fst = fields.map RecordField.name := by
    rw [← List.forall₂_eq_eq_eq, List.forall₂_map_left_iff, List.forall₂_map_right_iff]
    exact h.flip.imp fun _ _ hm => hm.1.symm
  refine .object (spellsObject_of_keys (hnames ▸ hkeys : (values.map Prod.fst).Nodup) ?_ ?_)
  · rw [List.forall₂_map_left_iff, List.forall₂_map_right_iff, List.forall₂_same]
    refine fun m hm => ⟨spells_ofString m.1, fun f hf hname => ?_⟩
    obtain ⟨f', hf', hname', hvalue⟩ := exists_of_mem_forall₂ h.flip hm
    rwa [List.inj_on_of_nodup_map hkeys hf hf' (hname.trans hname'.symm)]
  · exact fun f hf => .inr (hnames ▸ List.mem_map_of_mem hf)

theorem Span.isSpelledBy_written (s : Span) : SpellsRecord s.recordFields s.written :=
  spellsRecord_ofFields (by simp [recordFields]) (.cons ⟨rfl, rfl⟩ (.cons ⟨rfl, rfl⟩ .nil))

namespace Node

mutual

/-- What is written for a tree spells it. -/
theorem isSpelledBy_written : ∀ n : Node, n.IsSpelledBy n.written
  | ⟨kind, span, text, cs⟩ =>
    spellsRecord_ofFields (by simp) (.cons ⟨rfl, .inl (spellsText_ofString _)⟩ <|
      .cons ⟨rfl, span.isSpelledBy_written⟩ <| .cons ⟨rfl, spellsText_ofString _⟩ <|
      .cons ⟨rfl, _, rfl, areSpelledBy_written cs⟩ .nil)

theorem areSpelledBy_written : ∀ cs : List Node, AreSpelledBy cs (writtenAmong cs)
  | [] => trivial
  | c :: cs => ⟨isSpelledBy_written c, areSpelledBy_written cs⟩

end

end Node

namespace SpanFields

/-- What is known of a span after some keys. -/
def seen (s : Span) (keys : List String) : SpanFields :=
  ⟨if "start" ∈ keys then some s.start else none, if "end" ∈ keys then some s.stop else none⟩

theorem seen_start (s : Span) (keys : List String) :
    seen s ("start" :: keys) = { seen s keys with start := some s.start } := by
  simp [seen]

theorem seen_end (s : Span) (keys : List String) :
    seen s ("end" :: keys) = { seen s keys with stop := some s.stop } := by
  simp [seen]

theorem seen_other (s : Span) (keys : List String) {key : String} (hstart : key ≠ "start")
    (hend : key ≠ "end") : seen s (key :: keys) = seen s keys := by
  simp [seen, hstart.symm, hend.symm]

theorem readsFields (s : Span) : ReadsFields field (seen s) s.recordFields where
  known := by
    intro f hf v shapes hv hshapes keys hkeys
    rcases List.mem_pair.mp hf with rfl | rfl
    · have hold : (seen s keys).start = none := if_neg hkeys
      dsimp only
      rw [seen_start, field_start, hold]
      exact (accepts_newField "start" (reads_readWord32 _ v shapes hv hshapes)).map fun x =>
        SpanFields.mk x (seen s keys).stop
    · have hold : (seen s keys).stop = none := if_neg hkeys
      dsimp only
      rw [seen_end, field_end, hold]
      exact (accepts_newField "end" (reads_readWord32 _ v shapes hv hshapes)).map
        (SpanFields.mk (seen s keys).start)
  other := by
    intro key hkey keys ts
    have hstart : key ≠ "start" := (hkey _ List.mem_cons_self).symm
    have hend : key ≠ "end" := (hkey _ (List.mem_cons_of_mem _ List.mem_cons_self)).symm
    rw [field, if_neg hstart, if_neg hend, seen_other s keys hstart hend]

end SpanFields

namespace Span

theorem accepts_readObject {s : Span} {ms : List (Literal × Value)} {es : List (String × List Shape)}
    (hms : SpellsObject s.recordFields ms) (hes : List.Forall₂ IsMember ms es) :
    Accepts readObject (fieldShapes true es ++ [.closeBrace]) s := by
  refine accepts_members (SpanFields.readsFields s) (fun seen hseen ts => ?_) hms hes
  have hstart := (hseen _ List.mem_cons_self).resolve_left id
  have hend := (hseen _ (List.mem_cons_of_mem _ List.mem_cons_self)).resolve_left id
  rw [SpanFields.finish, SpanFields.seen, if_pos hstart, if_pos hend]
  rfl

theorem readsList (s : Span) : ReadsList true readElements s.recordFields s := by
  unfold readElements
  refine .required id (reads_readWord32 s.start) ?_ 0 lengthText
  exact .required id (reads_readWord32 s.stop) (.nil false s) 1 lengthText

theorem read_openBracket {depth : Nat} (hdepth : 1 < depth) {t : Token}
    (ht : t.shape = .openBracket) (ts : List Token) : read depth (t :: ts) = readElements ts := by
  simp only [read, ht, enter_of_pos (Nat.sub_pos_of_lt hdepth)]

theorem reads {depth : Nat} (hdepth : 1 < depth) (s : Span) :
    Reads (Span.read depth) (SpellsRecord s.recordFields) s := by
  intro v shapes hv h
  cases hv with
  | object hms =>
    obtain ⟨es, hes, rfl⟩ := exists_objectShapes hms.keys h
    exact (accepts_readObject hms hes).behind fun _ ts ht => read_openBrace hdepth ht ts
  | list hvs =>
    obtain ⟨es, hes, rfl⟩ := exists_listShapes h
    exact (s.readsList _ _ hvs hes).behind fun _ ts ht => read_openBracket hdepth ht ts

end Span

namespace Node

/-- The fields of a node. -/
def recordFields (n : Node) : List RecordField :=
  [⟨"kind", n.kind.IsSpelledBy, False⟩, ⟨"span", SpellsRecord n.span.recordFields, False⟩,
    ⟨"text", Value.SpellsText n.text, n.text = ""⟩,
    ⟨"children", fun w => ∃ vs, w = .list vs ∧ List.Forall₂ IsSpelledBy n.children vs,
      n.children = []⟩]

theorem areSpelledBy_iff {cs : List Node} {vs : List Value} :
    AreSpelledBy cs vs ↔ List.Forall₂ IsSpelledBy cs vs := by
  induction cs generalizing vs with
  | nil => cases vs <;> simp [AreSpelledBy]
  | cons c cs ih => cases vs <;> simp [AreSpelledBy, ih]

theorem isSpelledBy_iff {n : Node} {v : Value} :
    n.IsSpelledBy v ↔ SpellsRecord n.recordFields v := by
  obtain ⟨kind, span, text, cs⟩ := n
  rw [IsSpelledBy, recordFields]
  simp only [areSpelledBy_iff]

end Node

namespace NodeFields

/-- What is known of a node after some keys. -/
def seen (n : Node) (keys : List String) : NodeFields :=
  ⟨if "kind" ∈ keys then some n.kind else none, if "span" ∈ keys then some n.span else none,
    if "text" ∈ keys then some n.text else none,
    if "children" ∈ keys then some n.children else none⟩

section Seen

variable (n : Node) (keys : List String)

theorem seen_kind : seen n ("kind" :: keys) = { seen n keys with kind := some n.kind } := by
  simp [seen]

theorem seen_span : seen n ("span" :: keys) = { seen n keys with span := some n.span } := by
  simp [seen]

theorem seen_text : seen n ("text" :: keys) = { seen n keys with text := some n.text } := by
  simp [seen]

theorem seen_children :
    seen n ("children" :: keys) = { seen n keys with children := some n.children } := by
  simp [seen]

theorem seen_other {key : String} (hkind : key ≠ "kind") (hspan : key ≠ "span")
    (htext : key ≠ "text") (hchildren : key ≠ "children") : seen n (key :: keys) = seen n keys := by
  simp [seen, hkind.symm, hspan.symm, htext.symm, hchildren.symm]

end Seen

/-- Whatever spells the children of a node is read as these children. -/
def ReadsChildren (readChildren : Reader (List Node)) (cs : List Node) : Prop :=
  Reads readChildren (fun v => ∃ vs, v = .list vs ∧ List.Forall₂ Node.IsSpelledBy cs vs) cs

theorem readsChildren_readList {left : Nat} (hleft : 0 < left) {element : Reader Node}
    {cs : List Node} (h : ∀ c ∈ cs, Reads element c.IsSpelledBy c) :
    ReadsChildren (readList Text.quote left element) cs := by
  rintro v shapes ⟨vs, rfl, hvs⟩ hshapes
  obtain ⟨es, hes, rfl⟩ := exists_listShapes hshapes
  refine accepts_readList _ hleft ?_
  clear hshapes
  induction hvs generalizing es with
  | nil =>
    cases hes
    exact .nil
  | @cons c v cs vs hc hcs ih =>
    rcases hes with _ | ⟨he, hes⟩
    obtain ⟨hhead, htail⟩ := List.forall_mem_cons.mp h
    exact .cons ⟨he.opens, hhead v _ hc he⟩ (ih htail _ hes)

theorem readsFields {left : Nat} {readChildren : Reader (List Node)} {n : Node} (hleft : 1 < left)
    (hkind : n.kind.IsNamed) (hchildren : ReadsChildren readChildren n.children) :
    ReadsFields (field left readChildren) (seen n) n.recordFields where
  known := by
    intro f hf v shapes hv hshapes keys hkeys
    simp only [Node.recordFields, List.mem_cons, List.not_mem_nil, or_false] at hf
    rcases hf with rfl | rfl | rfl | rfl
    · have hold : (seen n keys).kind = none := if_neg hkeys
      dsimp only
      rw [seen_kind, field_kind, hold]
      exact (accepts_newField "kind" (Kind.reads hkind v shapes hv hshapes)).map fun x =>
        { seen n keys with kind := x }
    · have hold : (seen n keys).span = none := if_neg hkeys
      dsimp only
      rw [seen_span, field_span, hold]
      exact (accepts_newField "span" (n.span.reads hleft v shapes hv hshapes)).map fun x =>
        { seen n keys with span := x }
    · have hold : (seen n keys).text = none := if_neg hkeys
      dsimp only
      rw [seen_text, field_text, hold]
      exact (accepts_newField "text" (reads_readString _ v shapes hv hshapes)).map fun x =>
        { seen n keys with text := x }
    · have hold : (seen n keys).children = none := if_neg hkeys
      dsimp only
      rw [seen_children, field_children, hold]
      exact (accepts_newField "children" (hchildren v shapes hv hshapes)).map fun x =>
        { seen n keys with children := x }
  other := by
    intro key hkey keys ts
    simp only [Node.recordFields, List.forall_mem_cons] at hkey
    obtain ⟨hkind, hspan, htext, hchildren, -⟩ := hkey
    rw [field, if_neg hkind.symm, if_neg hspan.symm, if_neg htext.symm, if_neg hchildren.symm,
      seen_other n keys hkind.symm hspan.symm htext.symm hchildren.symm]

end NodeFields

namespace Node

variable {n : Node} {left : Nat} {readChildren : Reader (List Node)}

/-- What was left out has its default. -/
theorem getD_ite_some {α : Type} {x default : α} {p : Prop} [Decidable p] (h : x = default ∨ p) :
    (if p then some x else none).getD default = x := by
  split
  · rfl
  · rename_i hp
    exact (h.resolve_right hp).symm

theorem accepts_readObject {ms : List (Literal × Value)} {es : List (String × List Shape)}
    (hleft : 1 < left) (hkind : n.kind.IsNamed)
    (hchildren : NodeFields.ReadsChildren readChildren n.children)
    (hms : SpellsObject n.recordFields ms) (hes : List.Forall₂ IsMember ms es) :
    Accepts (readObject left readChildren) (fieldShapes true es ++ [.closeBrace]) n := by
  refine accepts_members (NodeFields.readsFields hleft hkind hchildren) (fun seen hseen ts => ?_)
    hms hes
  simp only [recordFields, List.forall_mem_cons] at hseen
  obtain ⟨hkind, hspan, htext, hlist, -⟩ := hseen
  have hknown : NodeFields.seen n seen = ⟨some n.kind, some n.span,
      if "text" ∈ seen then some n.text else none,
      if "children" ∈ seen then some n.children else none⟩ := by
    rw [NodeFields.seen, if_pos (hkind.resolve_left id), if_pos (hspan.resolve_left id)]
  rw [NodeFields.finish, hknown]
  dsimp only
  rw [getD_ite_some htext, getD_ite_some hlist]
  cases n
  rfl

theorem readsList (hleft : 1 < left) (hkind : n.kind.IsNamed)
    (hchildren : NodeFields.ReadsChildren readChildren n.children) :
    ReadsList true (readElements left readChildren) n.recordFields n := by
  cases n with
  | mk kind span text children =>
  unfold readElements
  refine .required id (Kind.reads hkind) ?_ 0 lengthText
  refine .required id (span.reads hleft) ?_ 1 lengthText
  refine .optional id (reads_readString text) ?_
  exact .optional id hchildren (.nil false _)

theorem readWith_openBracket (hleft : 0 < left) {t : Token} (ht : t.shape = .openBracket)
    (ts : List Token) :
    readWith left readChildren (t :: ts) = readElements left readChildren ts := by
  simp only [readWith, ht, enter_of_pos hleft]

theorem reads_readWith (hleft : 1 < left) (hkind : n.kind.IsNamed)
    (hchildren : NodeFields.ReadsChildren readChildren n.children) :
    Reads (readWith left readChildren) n.IsSpelledBy n := by
  have hpos : 0 < left := Nat.zero_lt_of_lt hleft
  intro v shapes hv hshapes
  cases isSpelledBy_iff.mp hv with
  | object hms =>
    obtain ⟨es, hes, rfl⟩ := exists_objectShapes hms.keys hshapes
    exact (accepts_readObject hleft hkind hchildren hms hes).behind fun _ ts ht =>
      readWith_openBrace hpos ht ts
  | list hvs =>
    obtain ⟨es, hes, rfl⟩ := exists_listShapes hshapes
    exact (readsList hleft hkind hchildren _ _ hvs hes).behind fun _ ts ht =>
      readWith_openBracket hpos ht ts

/-- However a tree is spelled, it is read if the depth is more than twice its height. -/
theorem reads {depth : Nat} {n : Node} (hn : n.HasNamedKinds) (hdepth : 2 * n.height < depth) :
    Reads (read depth) n.IsSpelledBy n := by
  induction depth using Nat.twoStepInduction generalizing n with
  | zero => exact absurd hdepth (Nat.not_lt_zero _)
  | one =>
    have hpos := n.height_pos
    omega
  | more depth ih _ =>
    obtain ⟨hkind, hkinds⟩ := hasNamedKinds_iff.mp hn
    obtain ⟨hleft, hheights⟩ := two_mul_height_lt_iff.mp hdepth
    have hchildren : ∀ c ∈ n.children, Reads (read depth) c.IsSpelledBy c := fun c hc =>
      ih (hkinds c hc) (hheights c hc)
    rw [read_add_two]
    exact reads_readWith (Nat.succ_lt_succ hleft) hkind
      (NodeFields.readsChildren_readList hleft hchildren)

theorem ofJson_document {n : Node} {v : Value} (hn : n.HasNamedKinds) (hheight : n.height ≤ 63)
    (hv : n.IsSpelledBy v) (gaps : Nat → List Blank) : ofJson (v.document gaps) = .ok n := by
  have hdepth := two_mul_height_lt_depthLimit_iff.mpr hheight
  have hread := reads hn hdepth v _ hv (v.hasShapes_tokens gaps) _ [] rfl
  rw [List.append_nil] at hread
  exact readDocument_eq_ok.mpr hread

/-- However a tree is spelled, and with whatever blanks, it is read as the same tree; so a conversion
does not depend on the spelling. What is written for the tree is one of the spellings. -/
theorem spelling_irrelevant (n : Node) (hn : n.HasNamedKinds) (hheight : n.height ≤ 63) :
    (∀ v, n.IsSpelledBy v → ∀ gaps, ofJson (v.document gaps) = .ok n) ∧
    (∀ v v', n.IsSpelledBy v → n.IsSpelledBy v' → ∀ gaps gaps' render d d' settings path,
      d.read? path = some (v.document gaps) → d'.read? path = some (v'.document gaps') →
        Conversion.run render d settings path = Conversion.run render d' settings path) ∧
    n.IsSpelledBy n.written ∧ n.written.document (fun _ => []) = n.toJson := by
  refine ⟨fun v hv gaps => ofJson_document hn hheight hv gaps, ?_, n.isSpelledBy_written,
    n.document_written⟩
  intro v v' hv hv' gaps gaps' render d d' settings path hd hd'
  simp only [Conversion.run, hd, hd', ofJson_document hn hheight hv, ofJson_document hn hheight hv']

/-- A mode with a child. -/
def spelledTree : Node :=
  ⟨.rule .mode, ⟨3, 7⟩, "é😀/", [.leaf (.other "x") ⟨1, 2⟩ ""]⟩

/-- The text of the tree, all in escapes. -/
def escapedText : Literal :=
  ⟨[.unit (.ofNat 0xE9 true), .unit (.ofNat 0xD83D false), .unit (.ofNat 0xDE00 false),
    .escape .slash]⟩

/-- Items of a list that nobody wants. -/
def unwantedItems : List Value :=
  [.object [(escapedText, .numeral ⟨true, 1, [5], some ⟨true, none, 3, []⟩⟩)], .word .null]

/-- An object with a member that is no field, and with lists that spell nodes and spans. -/
def spelledValue : Value :=
  .object [(.ofString "text", .literal escapedText), (.ofString "line", .list unwantedItems),
    (.ofString "children", .list [.list [.literal (.ofString "x"),
      .object [(.ofString "end", .numeral (.natural 2)), (.ofString "start", .numeral (.natural 1))]]]),
    (.ofString "span", .list [.numeral (.natural 3), .numeral (.natural 7)]),
    (.ofString "kind", .literal (.ofString "signal_mode"))]

theorem escapedText_spells : escapedText.Spells "é😀/" := by
  have hchars : "é😀/".toList = ['é', '😀', '/'] := by decide
  rw [Literal.Spells, hchars]
  exact .unit rfl (.pair (by decide) (by decide) rfl (.escape .nil))

/-- A span with its end first. -/
theorem spelledSpan_spells : SpellsRecord (Span.recordFields ⟨1, 2⟩)
    (.object [(.ofString "end", .numeral (.natural 2)), (.ofString "start", .numeral (.natural 1))]) := by
  have hkeys : ["end", "start"].Nodup := by decide
  refine .object (spellsObject_of_keys hkeys ?_ (by simp [Span.recordFields]))
  exact .cons ⟨spells_ofString _, by simp [Span.recordFields, Value.SpellsWord]⟩ <|
    .cons ⟨spells_ofString _, by simp [Span.recordFields, Value.SpellsWord]⟩ .nil

/-- A list that is cut off behind the span. -/
theorem spelledChild_isSpelledBy : (leaf (.other "x") ⟨1, 2⟩ "").IsSpelledBy
    (.list [.literal (.ofString "x"),
      .object [(.ofString "end", .numeral (.natural 2)), (.ofString "start", .numeral (.natural 1))]]) := by
  refine isSpelledBy_iff.mpr (.list (.cons (.inl (spellsText_ofString "x")) ?_))
  exact .cons spelledSpan_spells (.omitted (by simp [leaf]))

theorem spelledTree_isSpelledBy : spelledTree.IsSpelledBy spelledValue := by
  have hkeys : ["text", "line", "children", "span", "kind"].Nodup := by decide
  have htext : Value.SpellsText "é😀/" (.literal escapedText) := ⟨_, rfl, escapedText_spells⟩
  have hspan : SpellsRecord (Span.recordFields ⟨3, 7⟩)
      (.list [.numeral (.natural 3), .numeral (.natural 7)]) :=
    .list (.cons rfl (.cons rfl (.omitted nofun)))
  have hkind : Kind.IsSpelledBy (.rule .mode) (.literal (.ofString "signal_mode")) :=
    .inr ⟨rfl, spellsText_ofString _⟩
  refine isSpelledBy_iff.mpr (.object (spellsObject_of_keys hkeys ?_ (by simp [recordFields])))
  refine .cons ⟨spells_ofString _, ?_⟩ <| .cons ⟨spells_ofString _, ?_⟩ <|
    .cons ⟨spells_ofString _, ?_⟩ <| .cons ⟨spells_ofString _, ?_⟩ <|
    .cons ⟨spells_ofString _, ?_⟩ .nil <;>
    simp only [recordFields, spelledTree, List.forall_mem_cons]
  · simpa using htext
  · simp
  · simpa using spelledChild_isSpelledBy
  · simpa using hspan
  · simpa using hkind

/-- A document in which the tree is spelled. -/
def spelledDocument : String :=
  " \x7b\"text\":\"\\u00E9\\ud83d\\ude00\\/\" ,\"line\":[ \x7b\"\\u00E9\\ud83d\\ude00\\/\":-1.5E3 \x7d,null] ," ++
    "\"children\":[ [\"x\",\x7b \"end\":2, \"start\":1\x7d ]],\"span\" :[3, 7],\"kind\" :\"signal_mode\"\x7d"

def spelledGaps (i : Nat) : List Blank := if i % 4 = 0 then [.space] else []

theorem spelledTree_read : spelledTree.HasNamedKinds ∧ spelledTree.height ≤ 63 ∧
    spelledTree.IsSpelledBy spelledValue ∧ spelledValue.document spelledGaps = spelledDocument ∧
    ofJson spelledDocument = .ok spelledTree ∧ ∀ render settings path,
      Conversion.run render ⟨fun _ => some (.text spelledDocument)⟩ settings path =
        Conversion.run render ⟨fun _ => some (.text spelledTree.toJson)⟩ settings path := by
  have hkinds : spelledTree.HasNamedKinds := by
    refine hasNamedKinds_iff.mpr ⟨⟨"signal_mode", rfl⟩, fun c hc => ?_⟩
    cases List.mem_singleton.mp hc
    exact hasNamedKinds_iff.mpr ⟨⟨"x", rfl⟩, nofun⟩
  have hheight : spelledTree.height ≤ 63 := by decide
  have hdocument : spelledValue.document spelledGaps = spelledDocument := by decide +kernel
  obtain ⟨hread, hrun, hwritten, htext⟩ := spelling_irrelevant spelledTree hkinds hheight
  refine ⟨hkinds, hheight, spelledTree_isSpelledBy, hdocument,
    hdocument ▸ hread _ spelledTree_isSpelledBy spelledGaps, fun render settings path => ?_⟩
  exact hrun _ _ spelledTree_isSpelledBy hwritten spelledGaps (fun _ => []) render _ _ settings path
    (congrArg some hdocument.symm) (congrArg some htext.symm)

end Node

end VhdlLowering
