import VhdlLowering.Proofs.Subtrees
import VhdlLowering.Proofs.Writing

/-!
# Trees that go through a document

A tree that is written is read back, if its brackets are not nested too deep, and whatever tree is
read can be written and read again. On the way down from the root every node has two brackets one in
the other, its own and that of its children, or in the end that of its span; so the brackets of a
tree are nested twice as deep as the tree is high.
-/

namespace VhdlLowering

open Json

/-- The kind that belongs to some name. -/
def Kind.IsNamed (k : Kind) : Prop := ∃ s, k = .ofName s

theorem Kind.ofName_name {k : Kind} (h : k.IsNamed) : Kind.ofName k.name = k := by
  obtain ⟨s, rfl⟩ := h
  cases hrule : Rule.ofName? s with
  | none => simp [ofName, hrule, name]
  | some r => simp [ofName, hrule, Rule.ofName?_name]

namespace Node

mutual

/-- The number of nodes on the longest way down from the root. -/
def height : Node → Nat
  | ⟨_, _, _, cs⟩ => heightAmong cs + 1

def heightAmong : List Node → Nat
  | [] => 0
  | c :: cs => max c.height (heightAmong cs)

end

theorem heightAmong_le_iff {cs : List Node} {h : Nat} :
    heightAmong cs ≤ h ↔ ∀ c ∈ cs, c.height ≤ h := by
  induction cs with
  | nil => simp [heightAmong]
  | cons c cs ih => rw [heightAmong, max_le_iff, ih, List.forall_mem_cons]

theorem height_le_succ_iff {n : Node} {h : Nat} :
    n.height ≤ h + 1 ↔ ∀ c ∈ n.children, c.height ≤ h := by
  obtain ⟨kind, span, text, cs⟩ := n
  rw [height, Nat.add_le_add_iff_right, heightAmong_le_iff]

theorem height_pos (n : Node) : 0 < n.height := by
  cases n
  exact Nat.succ_pos _

/-- All kinds in the tree belong to names. -/
def HasNamedKinds (n : Node) : Prop := ∀ x : Node, x.Within n → x.kind.IsNamed

theorem hasNamedKinds_iff {n : Node} :
    n.HasNamedKinds ↔ n.kind.IsNamed ∧ ∀ c ∈ n.children, c.HasNamedKinds := by
  refine ⟨fun h => ⟨h n (.root n), fun c hc x hx => h x (.inChild hc hx)⟩, fun ⟨h, hs⟩ x hx => ?_⟩
  cases hx with
  | root => exact h
  | inChild hd hx => exact hs _ hd x hx

end Node

def Span.shapes (s : Span) : List Shape :=
  objectShapes [("start", [numeralShape s.start]), ("end", [numeralShape s.stop])]

namespace Node

/-- The fields of a node with the shapes of their values. -/
def fieldsWith (kind : Kind) (span : Span) (text : String) (children : List (List Shape)) :
    List (String × List Shape) :=
  [("kind", [literalShape kind.name]), ("span", span.shapes), ("text", [literalShape text]),
    ("children", listShapes children)]

mutual

/-- The shapes of the tokens of a tree. -/
def shapes : Node → List Shape
  | ⟨kind, span, text, cs⟩ => objectShapes (fieldsWith kind span text (shapesAmong cs))

def shapesAmong : List Node → List (List Shape)
  | [] => []
  | c :: cs => c.shapes :: shapesAmong cs

end

theorem shapesAmong_eq_map (cs : List Node) : shapesAmong cs = cs.map shapes := by
  induction cs with
  | nil => rfl
  | cons c cs ih => rw [shapesAmong, ih, List.map_cons]

theorem shapes_eq (n : Node) :
    n.shapes = objectShapes (fieldsWith n.kind n.span n.text (n.children.map shapes)) := by
  obtain ⟨kind, span, text, cs⟩ := n
  rw [shapes, shapesAmong_eq_map]

theorem opens_shapes (n : Node) : Opens n.shapes := by
  rw [shapes_eq]
  exact ⟨.openBrace, rfl, nofun⟩

end Node

/-- What is written for a span has only its shapes. -/
theorem Span.shapes_of_written {s : Span} {shapes : List Shape} (h : s.written.HasShapes shapes) :
    shapes = s.shapes := by
  obtain ⟨_, rfl, hes⟩ := h.exists_fields
  rcases hes with _ | ⟨hstart, _ | ⟨hstop, _ | _⟩⟩
  rw [hstart.eq_of_natural, hstop.eq_of_natural]
  rfl

namespace Node

mutual

theorem shapes_of_written : ∀ (n : Node) {shapes : List Shape}, n.written.HasShapes shapes →
    shapes = n.shapes
  | ⟨kind, span, text, cs⟩, _, h => by
    obtain ⟨_, rfl, hes⟩ := h.exists_fields
    rcases hes with _ | ⟨hkind, _ | ⟨hspan, _ | ⟨htext, _ | ⟨hchildren, _ | _⟩⟩⟩⟩
    obtain ⟨es, hes, rfl⟩ := exists_listShapes hchildren
    rw [hkind.eq_of_spells (spells_ofString _), span.shapes_of_written hspan,
      htext.eq_of_spells (spells_ofString _), shapes_of_writtenAmong cs hes]
    rfl

theorem shapes_of_writtenAmong : ∀ (cs : List Node) {es : List (List Shape)},
    List.Forall₂ Value.HasShapes (writtenAmong cs) es → es = shapesAmong cs
  | [], _, .nil => rfl
  | c :: cs, _, .cons hc hcs => by
    rw [shapesAmong, shapes_of_written c hc, shapes_of_writtenAmong cs hcs]

end

theorem tokens_toJson (n : Node) : (tokens n.toJson).map Token.shape = n.shapes := by
  rw [← n.document_written]
  exact n.shapes_of_written (n.written.hasShapes_tokens _)

end Node

theorem Kind.accepts_read {k : Kind} (h : k.IsNamed) :
    Accepts Kind.read [literalShape k.name] k := by
  have hread := (accepts_readString Text.quote k.name).map Kind.ofName
  rwa [ofName_name h] at hread

namespace SpanFields

variable (known : SpanFields)

theorem field_start :
    field "start" known = fun ts => do
      let (x, ts) ← newField "start" known.start (readWord32 Text.quote) ts
      return ({ known with start := x }, ts) :=
  funext fun _ => if_pos rfl

theorem field_end :
    field "end" known = fun ts => do
      let (x, ts) ← newField "end" known.stop (readWord32 Text.quote) ts
      return ({ known with stop := x }, ts) :=
  funext fun _ => (if_neg (by decide)).trans (if_pos rfl)

end SpanFields

namespace Span

variable {depth : Nat}

theorem read_openBrace (hdepth : 1 < depth) {t : Token} (ht : t.shape = .openBrace)
    (ts : List Token) : read depth (t :: ts) = readObject ts := by
  simp only [read, ht, enter_of_pos (Nat.sub_pos_of_lt hdepth)]

theorem accepts_read (hdepth : 1 < depth) (s : Span) : Accepts (read depth) s.shapes s := by
  have hstart : Accepts (SpanFields.field "start" ⟨none, none⟩) [.colon, numeralShape s.start]
      ⟨some s.start, none⟩ := by
    rw [SpanFields.field_start]
    exact (accepts_newField "start" (accepts_readWord32 _ _)).map fun x => SpanFields.mk x none
  have hend : Accepts (SpanFields.field "end" ⟨some s.start, none⟩) [.colon, numeralShape s.stop]
      ⟨some s.start, some s.stop⟩ := by
    rw [SpanFields.field_end]
    exact (accepts_newField "end" (accepts_readWord32 _ _)).map (SpanFields.mk (some s.start))
  have hobject : Accepts readObject _ s :=
    accepts_object (.cons hstart (.cons hend (.nil _))) fun _ => rfl
  exact hobject.behind fun _ ts ht => read_openBrace hdepth ht ts

/-- The brace of a span is one too many. -/
theorem rejects_read (hdepth : depth ≤ 1) (s : Span) :
    Rejects (read depth) s.shapes .nestedTooDeep := by
  refine rejects_enter readObject fun t ts ht => ?_
  simp only [read, ht, Nat.sub_eq_zero_of_le hdepth]

end Span

namespace NodeFields

variable (left : Nat) (readChildren : Reader (List Node)) (known : NodeFields)

theorem field_kind :
    field left readChildren "kind" known = fun ts => do
      let (x, ts) ← newField "kind" known.kind Kind.read ts
      return ({ known with kind := x }, ts) :=
  funext fun _ => if_pos rfl

theorem field_span :
    field left readChildren "span" known = fun ts => do
      let (x, ts) ← newField "span" known.span (Span.read left) ts
      return ({ known with span := x }, ts) :=
  funext fun _ => (if_neg (by decide)).trans (if_pos rfl)

theorem field_text :
    field left readChildren "text" known = fun ts => do
      let (x, ts) ← newField "text" known.text (readString Text.quote) ts
      return ({ known with text := x }, ts) :=
  funext fun _ => (if_neg (by decide)).trans ((if_neg (by decide)).trans (if_pos rfl))

theorem field_children :
    field left readChildren "children" known = fun ts => do
      let (x, ts) ← newField "children" known.children readChildren ts
      return ({ known with children := x }, ts) :=
  funext fun _ => (if_neg (by decide)).trans ((if_neg (by decide)).trans
    ((if_neg (by decide)).trans (if_pos rfl)))

variable {left} {readChildren} {kind : Kind} {span : Span} {text : String}

theorem accepts_kind (h : kind.IsNamed) :
    Accepts (field left readChildren "kind" ⟨none, none, none, none⟩)
      (.colon :: [literalShape kind.name]) ⟨some kind, none, none, none⟩ := by
  rw [field_kind]
  exact (accepts_newField "kind" (Kind.accepts_read h)).map fun x => NodeFields.mk x none none none

/-- The fields in front of the children are accepted if there is depth left for a span. -/
theorem acceptsFields_head (h : kind.IsNamed) (hleft : 1 < left) :
    AcceptsFields (field left readChildren) ⟨none, none, none, none⟩
      [("kind", [literalShape kind.name]), ("span", span.shapes), ("text", [literalShape text])]
      ⟨some kind, some span, some text, none⟩ := by
  have hspan : Accepts (field left readChildren "span" ⟨some kind, none, none, none⟩)
      (.colon :: span.shapes) ⟨some kind, some span, none, none⟩ := by
    rw [field_span]
    exact (accepts_newField "span" (span.accepts_read hleft)).map fun x =>
      NodeFields.mk (some kind) x none none
  have htext : Accepts (field left readChildren "text" ⟨some kind, some span, none, none⟩)
      (.colon :: [literalShape text]) ⟨some kind, some span, some text, none⟩ := by
    rw [field_text]
    exact (accepts_newField "text" (accepts_readString _ _)).map fun x =>
      NodeFields.mk (some kind) (some span) x none
  exact .cons (accepts_kind h) (.cons hspan (.cons htext (.nil _)))

end NodeFields

namespace Node

variable {left : Nat} {readChildren : Reader (List Node)} {kind : Kind} {span : Span}
  {text : String} {cs : List (List Shape)}

theorem readWith_openBrace (hleft : 0 < left) {t : Token} (ht : t.shape = .openBrace)
    (ts : List Token) :
    readWith left readChildren (t :: ts) = readObject left readChildren ts := by
  simp only [readWith, ht, enter_of_pos hleft]

theorem accepts_readWith {children : List Node} (h : kind.IsNamed) (hleft : 1 < left)
    (hchildren : Accepts readChildren (listShapes cs) children) :
    Accepts (readWith left readChildren) (objectShapes (fieldsWith kind span text cs))
      ⟨kind, span, text, children⟩ := by
  have hlist : Accepts (NodeFields.field left readChildren "children"
      ⟨some kind, some span, some text, none⟩) (.colon :: listShapes cs)
      ⟨some kind, some span, some text, some children⟩ := by
    rw [NodeFields.field_children]
    exact (accepts_newField "children" hchildren).map
      (NodeFields.mk (some kind) (some span) (some text))
  have hobject : Accepts (readObject left readChildren) _ ⟨kind, span, text, children⟩ :=
    accepts_object ((NodeFields.acceptsFields_head h hleft).append (.cons hlist (.nil _)))
      fun _ => rfl
  exact hobject.behind fun _ ts ht => readWith_openBrace (Nat.zero_lt_of_lt hleft) ht ts

/-- The brace of a node is one too many, or else the one of its span. -/
theorem rejects_readWith_of_le (h : kind.IsNamed) (hleft : left ≤ 1) :
    Rejects (readWith left readChildren) (objectShapes (fieldsWith kind span text cs))
      .nestedTooDeep := by
  rcases Nat.eq_zero_or_pos left with rfl | hpos
  · refine rejects_enter (readObject 0 readChildren) fun t ts ht => ?_
    simp only [readWith, ht]
  · have hspan : Rejects (NodeFields.field left readChildren "span" ⟨some kind, none, none, none⟩)
        (.colon :: span.shapes) .nestedTooDeep := by
      rw [NodeFields.field_span]
      exact (rejects_newField "span" (span.rejects_read hleft)).map fun x =>
        NodeFields.mk (some kind) x none none
    have hobject : Rejects (readObject left readChildren)
        (fieldShapes true ([("kind", [literalShape kind.name])] ++ ("span", span.shapes) ::
          [("text", [literalShape text]), ("children", listShapes cs)]) ++ [.closeBrace])
        .nestedTooDeep :=
      rejects_object NodeFields.finish (.cons (NodeFields.accepts_kind h) (.nil _)) hspan
    exact hobject.behind fun _ ts ht => readWith_openBrace hpos ht ts

/-- A node is rejected if its children are. -/
theorem rejects_readWith {cause : Cause} (h : kind.IsNamed) (hleft : 1 < left)
    (hchildren : Rejects readChildren (listShapes cs) cause) :
    Rejects (readWith left readChildren) (objectShapes (fieldsWith kind span text cs)) cause := by
  have hlist : Rejects (NodeFields.field left readChildren "children"
      ⟨some kind, some span, some text, none⟩) (.colon :: listShapes cs) cause := by
    rw [NodeFields.field_children]
    exact (rejects_newField "children" hchildren).map
      (NodeFields.mk (some kind) (some span) (some text))
  have hobject : Rejects (readObject left readChildren) (fieldShapes true
      ([("kind", [literalShape kind.name]), ("span", span.shapes), ("text", [literalShape text])] ++
        ("children", listShapes cs) :: []) ++ [.closeBrace]) cause :=
    rejects_object NodeFields.finish (NodeFields.acceptsFields_head h hleft) hlist
  exact hobject.behind fun _ ts ht => readWith_openBrace (Nat.zero_lt_of_lt hleft) ht ts

/-- A node takes one from the depth and the list of its children another one. -/
theorem read_add_two (depth : Nat) :
    read (depth + 2) = readWith (depth + 1) (readList Text.quote depth (read depth)) := by
  rw [read, readChildren]

/-- There is depth enough for a node if there is some for its span and enough for its children. -/
theorem two_mul_height_lt_iff {n : Node} {depth : Nat} :
    2 * n.height < depth + 2 ↔ 0 < depth ∧ ∀ c ∈ n.children, 2 * c.height < depth := by
  cases depth with
  | zero =>
    have hpos := n.height_pos
    omega
  | succ depth =>
    have hhalf : ∀ h, 2 * h < depth + 1 ↔ h ≤ depth / 2 := fun h => by omega
    calc 2 * n.height < depth + 1 + 2
      _ ↔ n.height ≤ depth / 2 + 1 := by omega
      _ ↔ ∀ c ∈ n.children, c.height ≤ depth / 2 := height_le_succ_iff
      _ ↔ 0 < depth + 1 ∧ ∀ c ∈ n.children, 2 * c.height < depth + 1 := by simp [hhalf]

theorem forall₂_accepts {element : Reader Node} {cs : List Node}
    (h : ∀ c ∈ cs, Accepts element c.shapes c) :
    List.Forall₂ (fun e c => Opens e ∧ Accepts element e c) (cs.map shapes) cs := by
  rw [List.forall₂_map_left_iff, List.forall₂_same]
  exact fun c hc => ⟨c.opens_shapes, h c hc⟩

/-- A tree is read back if the depth is more than twice its height. -/
theorem accepts_read {depth : Nat} {n : Node} (hn : n.HasNamedKinds)
    (hdepth : 2 * n.height < depth) : Accepts (read depth) n.shapes n := by
  induction depth using Nat.twoStepInduction generalizing n with
  | zero => exact absurd hdepth (Nat.not_lt_zero _)
  | one =>
    have hpos := n.height_pos
    omega
  | more depth ih _ =>
    obtain ⟨hkind, hkinds⟩ := hasNamedKinds_iff.mp hn
    obtain ⟨hleft, hheights⟩ := two_mul_height_lt_iff.mp hdepth
    have hchildren : ∀ c ∈ n.children, Accepts (read depth) c.shapes c :=
      fun c hc => ih (hkinds c hc) (hheights c hc)
    obtain ⟨kind, span, text, children⟩ := n
    rw [read_add_two, shapes_eq]
    exact accepts_readWith hkind (Nat.succ_lt_succ hleft) (accepts_readList _ hleft (forall₂_accepts hchildren))

/-- The brackets of a higher tree are nested too deep. -/
theorem rejects_read {depth : Nat} {n : Node} (hn : n.HasNamedKinds)
    (hdepth : depth ≤ 2 * n.height) : Rejects (read depth) n.shapes .nestedTooDeep := by
  induction depth using Nat.twoStepInduction generalizing n with
  | zero => exact fun ts us _ => ⟨none, by rw [read]; rfl⟩
  | one =>
    rw [read, shapes_eq]
    exact rejects_readWith_of_le (hn n (.root n)) (Nat.zero_le 1)
  | more depth ih _ =>
    obtain ⟨hkind, hkinds⟩ := hasNamedKinds_iff.mp hn
    rw [read_add_two, shapes_eq]
    rcases Nat.eq_zero_or_pos depth with rfl | hleft
    · exact rejects_readWith_of_le hkind (Nat.le_refl 1)
    -- Reading stops at the first child that is too high.
    obtain ⟨c, hc⟩ : ∃ c, (n.children.find? fun c => depth ≤ 2 * c.height) = some c := by
      rw [← Option.isSome_iff_exists, List.find?_isSome]
      by_contra hnone
      refine absurd (two_mul_height_lt_iff.mpr ⟨hleft, fun c hc => ?_⟩) (Nat.not_lt_of_le hdepth)
      exact Nat.lt_of_not_le fun hle => hnone ⟨c, hc, decide_eq_true hle⟩
    obtain ⟨hhigh, before, after, hsplit, hbefore⟩ := List.find?_eq_some_iff_append.mp hc
    have hmem : ∀ b ∈ before ++ [c], b ∈ n.children := fun b hb => by
      rw [hsplit, List.append_cons]
      exact List.mem_append_left _ hb
    have haccepts : ∀ b ∈ before, Accepts (read depth) b.shapes b := by
      intro b hb
      have hlow : 2 * b.height < depth := by simpa using hbefore b hb
      exact accepts_read (hkinds b (hmem b (List.mem_append_left _ hb))) hlow
    have hrejects := ih (hkinds c (hmem c (by simp))) (of_decide_eq_true hhigh)
    rw [hsplit, List.map_append, List.map_cons]
    exact rejects_readWith hkind (Nat.succ_lt_succ hleft)
      (rejects_readList _ hleft (forall₂_accepts haccepts) c.opens_shapes hrejects)

end Node

theorem Kind.isNamed_of_read {ts us : List Token} {k : Kind} (h : Kind.read ts = .ok (k, us)) :
    k.IsNamed := by
  obtain ⟨⟨s, us'⟩, -, h⟩ := bind_eq_ok.mp h
  cases h
  exact ⟨s, rfl⟩

theorem Span.lt_of_read {depth : Nat} {ts us : List Token} {s : Span}
    (h : Span.read depth ts = .ok (s, us)) : 1 < depth := by
  unfold Span.read at h
  split at h
  · cases h
  · split at h
    · exact Nat.lt_of_sub_pos (enter_eq_ok.mp h).1
    · exact Nat.lt_of_sub_pos (enter_eq_ok.mp h).1
    · cases h

/-- What is known of a node that is being read: there is depth left for its span, and its children
were read. -/
structure NodeFields.IsSound (left : Nat) (readChildren : Reader (List Node))
    (known : NodeFields) : Prop where
  kind : ∀ k ∈ known.kind, k.IsNamed
  span : known.span.isSome = true → 1 < left
  children : ∀ cs ∈ known.children, ReadBy readChildren cs

theorem NodeFields.IsSound.field {left : Nat} {readChildren : Reader (List Node)} {key : String}
    {known next : NodeFields} {ts us : List Token} (hknown : known.IsSound left readChildren)
    (h : field left readChildren key known ts = .ok (next, us)) :
    next.IsSound left readChildren := by
  unfold NodeFields.field at h
  split_ifs at h
  · obtain ⟨⟨x, us'⟩, hx, h⟩ := bind_eq_ok.mp h
    obtain ⟨k, ts', rfl, hk⟩ := newField_eq_ok hx
    cases h
    exact { hknown with kind := fun _ hk' => Option.some.inj hk' ▸ Kind.isNamed_of_read hk }
  · obtain ⟨⟨x, us'⟩, hx, h⟩ := bind_eq_ok.mp h
    obtain ⟨span, ts', rfl, hspan⟩ := newField_eq_ok hx
    cases h
    exact { hknown with span := fun _ => Span.lt_of_read hspan }
  · obtain ⟨⟨x, us'⟩, -, h⟩ := bind_eq_ok.mp h
    cases h
    exact { hknown with }
  · obtain ⟨⟨x, us'⟩, hx, h⟩ := bind_eq_ok.mp h
    obtain ⟨cs, ts', rfl, hcs⟩ := newField_eq_ok hx
    cases h
    exact { hknown with children := fun _ hcs' => Option.some.inj hcs' ▸ ⟨_, _, hcs⟩ }
  · obtain ⟨us', -, h⟩ := bind_eq_ok.mp h
    cases h
    exact hknown

namespace Node

section Read

variable {left : Nat} {readChildren : Reader (List Node)} {ts us : List Token} {n : Node}

/-- What is known of a node that was read. -/
def IsReadWith (left : Nat) (readChildren : Reader (List Node)) (n : Node) : Prop :=
  1 < left ∧ n.kind.IsNamed ∧ (n.children = [] ∨ ReadBy readChildren n.children)

theorem readObject_eq_ok (h : readObject left readChildren ts = .ok (n, us)) :
    n.IsReadWith left readChildren := by
  obtain ⟨⟨known, us'⟩, hknown, h⟩ := bind_eq_ok.mp h
  obtain ⟨n', hn, h⟩ := bind_eq_ok.mp h
  cases h
  obtain ⟨kind, hkind, hn⟩ := bind_eq_ok.mp hn
  obtain ⟨span, hspan, hn⟩ := bind_eq_ok.mp hn
  cases hn
  have hstart : NodeFields.IsSound left readChildren ⟨none, none, none, none⟩ :=
    ⟨nofun, nofun, nofun⟩
  have hsound : known.IsSound left readChildren :=
    readFields_invariant (NodeFields.IsSound left readChildren)
      (fun _ _ _ _ _ => NodeFields.IsSound.field) hstart hknown
  refine ⟨hsound.span (requireField_eq_ok hspan ▸ rfl), hsound.kind kind (requireField_eq_ok hkind),
    ?_⟩
  cases hchildren : known.children with
  | none => exact .inl rfl
  | some cs => exact .inr (hsound.children cs hchildren)

theorem readElements_eq_ok (h : readElements left readChildren ts = .ok (n, us)) :
    n.IsReadWith left readChildren := by
  obtain ⟨⟨kind, ts⟩, hkind, h⟩ := bind_eq_ok.mp h
  obtain ⟨⟨span, ts⟩, hspan, h⟩ := bind_eq_ok.mp h
  obtain ⟨⟨text, ts⟩, -, h⟩ := bind_eq_ok.mp h
  obtain ⟨⟨children, ts⟩, hchildren, h⟩ := bind_eq_ok.mp h
  obtain ⟨ts, -, h⟩ := bind_eq_ok.mp h
  cases h
  obtain ⟨_, hkind⟩ := requiredElement_eq_ok hkind
  obtain ⟨_, hspan⟩ := requiredElement_eq_ok hspan
  refine ⟨Span.lt_of_read hspan, Kind.isNamed_of_read hkind, ?_⟩
  exact (optionalElement_eq_ok hchildren).imp id fun ⟨ts, hchildren⟩ => ⟨ts, _, hchildren⟩

theorem readWith_eq_ok (h : readWith left readChildren ts = .ok (n, us)) :
    n.IsReadWith left readChildren := by
  unfold readWith at h
  split at h
  · cases h
  · split at h
    · exact readElements_eq_ok (enter_eq_ok.mp h).2
    · exact readObject_eq_ok (enter_eq_ok.mp h).2
    · cases h

end Read

/-- Whatever tree is read has less than half the depth as its height, and its kinds belong to
names. -/
theorem read_eq_ok {depth : Nat} {ts us : List Token} {n : Node}
    (hn : read depth ts = .ok (n, us)) : 2 * n.height < depth ∧ n.HasNamedKinds := by
  induction depth using Nat.twoStepInduction generalizing ts us n with
  | zero =>
    rw [read] at hn
    cases hn
  | one =>
    rw [read] at hn
    exact absurd (readWith_eq_ok hn).1 (by decide)
  | more depth ih _ =>
    rw [read_add_two] at hn
    obtain ⟨hleft, hkind, hchildren⟩ := readWith_eq_ok hn
    have hread : ∀ c ∈ n.children, 2 * c.height < depth ∧ c.HasNamedKinds := by
      intro c hc
      rcases hchildren with hnone | ⟨ts, us, hlist⟩
      · rw [hnone] at hc
        cases hc
      · obtain ⟨_, _, hc⟩ := readList_eq_ok hlist c hc
        exact ih hc
    exact ⟨two_mul_height_lt_iff.mpr ⟨Nat.lt_of_succ_lt_succ hleft, fun c hc => (hread c hc).1⟩,
      hasNamedKinds_iff.mpr ⟨hkind, fun c hc => (hread c hc).2⟩⟩

/-- The trees for which the brackets of a document may be nested deep enough. -/
theorem two_mul_height_lt_depthLimit_iff {n : Node} :
    2 * n.height < depthLimit ↔ n.height ≤ 63 := by
  unfold depthLimit
  omega

/-- A tree of height up to sixty-three is read back from its document, the brackets of a higher one
are nested too deep, and the trees that are read from documents can be written and read again. -/
theorem json_roundtrip :
    (∀ n : Node, n.HasNamedKinds →
      (n.height ≤ 63 → ofJson n.toJson = .ok n) ∧
      (63 < n.height → ∃ r, ofJson n.toJson = .error r ∧ r.cause = .nestedTooDeep)) ∧
    ∀ (document : String) (n : Node), ofJson document = .ok n →
      n.height ≤ 63 ∧ n.HasNamedKinds ∧ ofJson n.toJson = .ok n := by
  have hback {n : Node} (hn : n.HasNamedKinds) (hheight : n.height ≤ 63) :
      ofJson n.toJson = .ok n := by
    have hdepth := two_mul_height_lt_depthLimit_iff.mpr hheight
    have hread := accepts_read hn hdepth (tokens n.toJson) [] (tokens_toJson n)
    rw [List.append_nil] at hread
    exact readDocument_eq_ok.mpr hread
  refine ⟨fun n hn => ⟨hback hn, fun hheight => ?_⟩, fun document n h => ?_⟩
  · have hdepth : depthLimit ≤ 2 * n.height :=
      Nat.le_of_not_lt fun hlt => Nat.not_le_of_lt hheight (two_mul_height_lt_depthLimit_iff.mp hlt)
    obtain ⟨place, hread⟩ := rejects_read hn hdepth (tokens n.toJson) [] (tokens_toJson n)
    rw [List.append_nil] at hread
    exact ⟨_, readDocument_eq_error hread, rfl⟩
  · obtain ⟨hdepth, hn⟩ := read_eq_ok (readDocument_eq_ok.mp h)
    have hheight := two_mul_height_lt_depthLimit_iff.mp hdepth
    exact ⟨hheight, hn, hback hn hheight⟩

/-- A node over a leaf, with a reversed span and with texts that have to be escaped. -/
def escapedTree : Node :=
  ⟨.ofName "signal_mode", ⟨4294967295, 0⟩, "in \"é\"\n\x01",
    [.leaf (.ofName "back\\slash") ⟨3, 5⟩ ""]⟩

/-- Nodes one in the other. -/
def tower : Nat → Node
  | 0 => .leaf (.ofName "x") ⟨0, 0⟩ ""
  | h + 1 => ⟨.ofName "x", ⟨0, 0⟩, "", [tower h]⟩

theorem height_tower (h : Nat) : (tower h).height = h + 1 := by
  induction h with
  | zero => rfl
  | succ h ih => rw [tower, height, heightAmong, heightAmong, ih, Nat.max_zero]

theorem hasNamedKinds_tower (h : Nat) : (tower h).HasNamedKinds := by
  induction h with
  | zero => exact hasNamedKinds_iff.mpr ⟨⟨"x", rfl⟩, nofun⟩
  | succ h ih => exact hasNamedKinds_iff.mpr ⟨⟨"x", rfl⟩, List.forall_mem_singleton.mpr ih⟩

theorem escapedTree_roundtrips :
    (escapedTree.HasNamedKinds ∧ escapedTree.height ≤ 63 ∧
      ofJson escapedTree.toJson = .ok escapedTree) ∧
    (63 < (tower 63).height ∧
      ∃ r, ofJson (tower 63).toJson = .error r ∧ r.cause = .nestedTooDeep) ∧
    let n : Node := .leaf (.other "x") ⟨1, 2⟩ ""
    ofJson "[\"x\", [1, 2]]" = .ok n ∧ ofJson n.toJson = .ok n := by
  obtain ⟨hwritten, hread⟩ := json_roundtrip
  have hkinds : escapedTree.HasNamedKinds :=
    hasNamedKinds_iff.mpr ⟨⟨"signal_mode", rfl⟩, List.forall_mem_singleton.mpr
      (hasNamedKinds_iff.mpr ⟨⟨"back\\slash", rfl⟩, nofun⟩)⟩
  have hheight : escapedTree.height ≤ 63 := by decide
  have htower : 63 < (tower 63).height := by rw [height_tower]; decide
  have hlisted : ofJson "[\"x\", [1, 2]]" = .ok (.leaf (.other "x") ⟨1, 2⟩ "") := by
    decide +kernel
  exact ⟨⟨hkinds, hheight, (hwritten _ hkinds).1 hheight⟩,
    ⟨htower, (hwritten _ (hasNamedKinds_tower 63)).2 htower⟩, hlisted, (hread _ _ hlisted).2.2⟩

end Node

end VhdlLowering
