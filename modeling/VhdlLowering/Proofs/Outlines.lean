import VhdlLowering.Ast.Nesting
import VhdlLowering.Ast.Outline
import VhdlLowering.Ast.Texts
import VhdlLowering.Proofs.Resolution
import VhdlLowering.Text.Lines
import Mathlib.Data.List.Forall2

/-!
# What an outline shows

An outline has a row for each heading, in pre-order. The row shows the level, the keyword and the
name of the heading, and its line feeds are those of the texts in it. If no text has one, the rows
are the lines of the outline, and the tree of keywords can be read off them.
-/

namespace VhdlLowering

open Text

/-- A forest can be read off its labels in pre-order with their levels, also if something follows
that is not as deep. -/
theorem Nest.levelsOf_append_inj {α : Type} {level : Nat} {ns ms : List (Nest α)}
    {xs ys : List (Nat × α)} (hxs : ∀ x ∈ xs.head?, x.1 < level) (hys : ∀ y ∈ ys.head?, y.1 < level)
    (h : levelsOf level ns ++ xs = levelsOf level ms ++ ys) : ns = ms ∧ xs = ys := by
  match ns, ms with
  | [], [] => exact ⟨rfl, h⟩
  | [], .node b below :: ms =>
    obtain rfl : xs = _ := h
    exact absurd (hxs (level, b) rfl) (Nat.lt_irrefl level)
  | .node a below :: ns, [] =>
    obtain rfl : _ = ys := h
    exact absurd (hys (level, a) rfl) (Nat.lt_irrefl level)
  | .node a below :: ns, .node b below' :: ms =>
    simp only [levelsOf, levels, List.cons_append, List.append_assoc, List.cons.injEq] at h
    obtain ⟨hlabel, hrest⟩ := h
    cases hlabel
    -- What follows the labels below is on this level or above it.
    have hafter (ks : List (Nest α)) (zs : List (Nat × α)) (hzs : ∀ z ∈ zs.head?, z.1 < level) :
        ∀ z ∈ (levelsOf level ks ++ zs).head?, z.1 < level + 1 := by
      intro z hz
      cases ks with
      | nil => exact Nat.lt_succ_of_lt (hzs z hz)
      | cons k ks =>
        cases k
        cases hz
        exact Nat.lt_succ_self level
    obtain ⟨rfl, hbehind⟩ := levelsOf_append_inj (hafter ns xs hxs) (hafter ms ys hys) hrest
    obtain ⟨rfl, rfl⟩ := levelsOf_append_inj hxs hys hbehind
    exact ⟨rfl, rfl⟩

theorem Nest.levels_inj {α : Type} {level : Nat} {n m : Nest α}
    (h : levels level n = levels level m) : n = m := by
  have hforest : levelsOf level [n] ++ [] = levelsOf level [m] ++ [] := by
    simpa [levelsOf] using h
  exact List.singleton_inj.mp (levelsOf_append_inj (by simp) (by simp) hforest).1

/-- Two spaces for each level. -/
def indentation (level : Nat) : String := String.ofList (List.replicate (2 * level) ' ')

theorem indentation_add (k level : Nat) :
    indentation (k + level) = indentation k ++ indentation level := by
  rw [indentation, Nat.mul_add, ← List.replicate_append_replicate, String.ofList_append]
  rfl

theorem feeds_indentation (level : Nat) : feeds (indentation level) = 0 := by
  simp [indentation, feeds_eq_zero_iff]

namespace Row

/-- The row without its line feed. -/
def line (r : Row) : String := indentation r.depth ++ r.text

theorem feeds_line (r : Row) : feeds r.line = feeds r.text := by
  rw [line, feeds_append, feeds_indentation, Nat.zero_add]

/-- The row some levels deeper. -/
def deeper (k : Nat) (r : Row) : Row := { r with depth := k + r.depth }

theorem line_deeper (k : Nat) (r : Row) : (r.deeper k).line = indentation k ++ r.line := by
  rw [line, line, deeper, indentation_add, String.append_assoc]

end Row

/-- A keyword is a word: it has no space, and it is not empty. -/
def IsWord (s : String) : Prop := s ≠ "" ∧ ' ' ∉ s.toList

instance (s : String) : Decidable (IsWord s) := inferInstanceAs (Decidable (_ ∧ _))

theorem ObjectKind.isWord_keyword (k : ObjectKind) : IsWord k.keyword := by
  cases k <;> decide

theorem SubprogramKind.isWord_keyword (k : SubprogramKind) : IsWord k.keyword := by
  cases k <;> decide

/-- A row for a heading on a level: the keyword, the name, and perhaps more. -/
structure Row.IsFor (r : Row) (x : Nat × Heading String) : Prop where
  depth : r.depth = x.1
  keyword : IsWord x.2.keyword
  text : ∃ rest, r.text = x.2.keyword ++ " " ++ x.2.name ++ rest

theorem Object.isFor_row (depth : Nat) (o : Object String) :
    (o.row depth).IsFor (depth, o.heading) := by
  refine ⟨rfl, o.kind.isWord_keyword, ?_⟩
  simp only [row, outline, heading, String.append_assoc]
  exact ⟨_, rfl⟩

theorem Subprogram.isFor_outline (depth : Nat) (d : Subprogram String) :
    Row.IsFor ⟨depth, d.outline⟩ (depth, ⟨d.kind.keyword, d.name⟩) := by
  refine ⟨rfl, d.kind.isWord_keyword, ?_⟩
  simp only [outline, String.append_assoc]
  exact ⟨_, rfl⟩

theorem TypeDecl.isFor_outline (depth : Nat) (d : TypeDecl String) :
    Row.IsFor ⟨depth, d.outline⟩ (depth, ⟨"type", d.name⟩) :=
  ⟨rfl, (by decide : IsWord "type"), _, rfl⟩

theorem SubtypeDecl.isFor_outline (depth : Nat) (d : SubtypeDecl String) :
    Row.IsFor ⟨depth, d.outline⟩ (depth, ⟨"subtype", d.name⟩) := by
  refine ⟨rfl, (by decide : IsWord "subtype"), ?_⟩
  simp only [outline, String.append_assoc]
  exact ⟨_, rfl⟩

theorem isFor_packageRow (depth : Nat) (name : String) (only : Bool) :
    (packageRow depth name only).IsFor (depth, ⟨"package", name⟩) :=
  ⟨rfl, (by decide : IsWord "package"), _, rfl⟩

theorem Component.isFor_rows (depth : Nat) (c : Component String) :
    List.Forall₂ Row.IsFor (c.rows depth) ((Declaration.component c).nest.levels depth) := by
  have hobjects (os : List (Object String)) :
      List.Forall₂ Row.IsFor (os.map (Object.row (depth + 1)))
        (Nest.levelsOf (depth + 1) (os.map fun o => .node o.heading [])) := by
    induction os with
    | nil => exact .nil
    | cons o os ih => exact .cons (o.isFor_row _) ih
  refine .cons ⟨rfl, (by decide : IsWord "component"), "", ?_⟩ (hobjects c.objects)
  simp

mutual

/-- The rows of a declaration are for its headings, one for each. -/
theorem Declaration.isFor_rows (depth : Nat) : ∀ d : Declaration String,
    List.Forall₂ Row.IsFor (d.rows depth) (d.nest.levels depth)
  | .subprogram d => .cons (d.isFor_outline depth) .nil
  | .type d => .cons (d.isFor_outline depth) .nil
  | .subtype d => .cons (d.isFor_outline depth) .nil
  | .constant o | .signal o | .variable o => .cons (o.isFor_row depth) .nil
  | .package ⟨name, only, ds, _⟩ =>
    .cons (isFor_packageRow depth name only) (Declaration.isFor_rowsOf (depth + 1) ds)
  | .component c => c.isFor_rows depth

theorem Declaration.isFor_rowsOf (depth : Nat) : ∀ ds : List (Declaration String),
    List.Forall₂ Row.IsFor (Declaration.rowsOf depth ds)
      (Nest.levelsOf depth (Declaration.nests ds))
  | [] => .nil
  | d :: ds => List.rel_append (Declaration.isFor_rows depth d) (Declaration.isFor_rowsOf depth ds)

end

theorem Package.isFor_rows (p : Package String) :
    List.Forall₂ Row.IsFor (Package.rows 0 p) ((Package.nest p).levels 0) := by
  rw [rows, ← Declaration.rowsOf_eq_flatMap]
  exact .cons (isFor_packageRow 0 p.name p.declarationsOnly) (Declaration.isFor_rowsOf 1 _)

theorem Expr.feeds_elim {e : Option Expr} {before : String} (h : feeds before = 0) :
    feeds (e.elim "" fun t => before ++ t.text) = feedsOf (Expr.textOf? e) := by
  cases e with
  | none => rfl
  | some t =>
    rw [Option.elim_some, feeds_append, h, Nat.zero_add]
    rfl

/-- The line feeds of an object are those of its texts. -/
theorem Object.feeds_outline (o : Object String) : feeds o.outline = feedsOf o.texts := by
  have hcolon : feeds (if o.direction.isSome ∨ o.type.isSome then " :" else "") = 0 := by
    split <;> decide
  have hmode : feeds (o.direction.elim "" fun d => " " ++ d.keyword) = 0 := by
    cases o.direction with
    | none => decide
    | some d => cases d <;> decide
  simp only [outline, texts, feeds_append, hcolon, hmode,
    Expr.feeds_elim (by decide : feeds " " = 0),
    Expr.feeds_elim (by decide : feeds " := " = 0), feedsOf_cons, feedsOf_append]
  omega

theorem ObjectKind.feeds_keyword (k : ObjectKind) : feeds k.keyword = 0 := by
  cases k <;> decide

theorem SubprogramKind.feeds_keyword (k : SubprogramKind) : feeds k.keyword = 0 := by
  cases k <;> decide

theorem Object.feeds_row (depth : Nat) (o : Object String) :
    feeds (o.row depth).text = feedsOf o.texts := by
  have hspace : feeds " " = 0 := by decide
  rw [row, feeds_append, feeds_append, o.kind.feeds_keyword, hspace, o.feeds_outline]
  omega

theorem Object.feedsOf_outlines (os : List (Object String)) :
    feedsOf (os.map Object.outline) = feedsOf (os.flatMap Object.texts) := by
  induction os with
  | nil => rfl
  | cons o os ih => simp [ih, o.feeds_outline]

theorem Subprogram.feeds_outline (d : Subprogram String) : feeds d.outline = feedsOf d.texts := by
  have hparams : feeds (if d.params.isEmpty then ""
      else "(" ++ String.intercalate "; " (d.params.map Object.outline) ++ ")") =
      feedsOf (d.params.flatMap Object.texts) := by
    split
    · rename_i hempty
      rw [List.isEmpty_iff.mp hempty]
      rfl
    · have hopen : feeds "(" = 0 := by decide
      have hclose : feeds ")" = 0 := by decide
      rw [feeds_append, feeds_append, feeds_intercalate (by decide), Object.feedsOf_outlines, hopen,
        hclose]
      omega
  have hspace : feeds " " = 0 := by decide
  simp only [outline, texts, feeds_append, d.kind.feeds_keyword, hparams, hspace,
    Expr.feeds_elim (by decide : feeds " return " = 0), feedsOf_cons, feedsOf_append]
  omega

theorem TypeDecl.feeds_outline (d : TypeDecl String) : feeds d.outline = feedsOf d.texts := by
  have hopen : feeds " is (" = 0 := by decide
  have hclose : feeds ")" = 0 := by decide
  have his : feeds " is " = 0 := by decide
  have htype : feeds "type " = 0 := by decide
  have hnothing : feeds "" = 0 := by decide
  rw [outline, feeds_append, feeds_append, htype, texts, feedsOf_cons]
  cases d.definition with
  | enumeration literals =>
    simp only [feeds_append, hopen, hclose, feeds_intercalate (by decide : feeds ", " = 0),
      TypeDefinition.texts]
    omega
  | incomplete =>
    simp only [hnothing, TypeDefinition.texts, feedsOf_nil]
    omega
  | verbatim e =>
    simp only [feeds_append, his, TypeDefinition.texts, feedsOf_cons, feedsOf_nil]
    omega

theorem SubtypeDecl.feeds_outline (d : SubtypeDecl String) : feeds d.outline = feedsOf d.texts := by
  have hsubtype : feeds "subtype " = 0 := by decide
  have his : feeds " is " = 0 := by decide
  simp only [outline, texts, feeds_append, hsubtype, his, feedsOf_cons, feedsOf_nil]
  omega

theorem feeds_packageRow (depth : Nat) (name : String) (only : Bool) :
    feeds (packageRow depth name only).text = feeds name := by
  have hpackage : feeds "package " = 0 := by decide
  have hbody : feeds (if only then "" else " (with body)") = 0 := by cases only <;> decide
  simp only [packageRow, feeds_append, hpackage, hbody]
  omega

namespace Row

/-- The line feeds in the texts of rows. -/
def feedsIn (rows : List Row) : Nat := feedsOf (rows.map text)

@[simp] theorem feedsIn_cons (r : Row) (rows : List Row) :
    feedsIn (r :: rows) = feeds r.text + feedsIn rows := rfl

@[simp] theorem feedsIn_append (rows rows' : List Row) :
    feedsIn (rows ++ rows') = feedsIn rows + feedsIn rows' := by
  simp [feedsIn]

end Row

theorem Object.feedsIn_rows (depth : Nat) (os : List (Object String)) :
    Row.feedsIn (os.map (Object.row depth)) = feedsOf (os.flatMap Object.texts) := by
  induction os with
  | nil => rfl
  | cons o os ih => simp [ih, o.feeds_row]

theorem Component.feedsIn_rows (depth : Nat) (c : Component String) :
    Row.feedsIn (c.rows depth) = feedsOf c.texts := by
  have hcomponent : feeds "component " = 0 := by decide
  simp only [rows, Row.feedsIn_cons, feeds_append, hcomponent, Object.feedsIn_rows, texts,
    feedsOf_cons]
  omega

mutual

/-- The line feeds in the rows of a declaration are those of its texts. -/
theorem Declaration.feedsIn_rows (depth : Nat) : ∀ d : Declaration String,
    Row.feedsIn (d.rows depth) = feedsOf d.texts
  | .subprogram d => d.feeds_outline
  | .type d => d.feeds_outline
  | .subtype d => d.feeds_outline
  | .constant o | .signal o | .variable o => o.feeds_row depth
  | .package ⟨name, only, ds, _⟩ => by
    rw [rows, texts, Row.feedsIn_cons, feeds_packageRow, Declaration.feedsIn_rowsOf (depth + 1) ds,
      feedsOf_cons]
  | .component c => c.feedsIn_rows depth

theorem Declaration.feedsIn_rowsOf (depth : Nat) : ∀ ds : List (Declaration String),
    Row.feedsIn (Declaration.rowsOf depth ds) = feedsOf (Declaration.textsOf ds)
  | [] => rfl
  | d :: ds => by
    rw [rowsOf, textsOf, Row.feedsIn_append, Declaration.feedsIn_rows depth d,
      Declaration.feedsIn_rowsOf depth ds, feedsOf_append]

end

theorem Package.feedsIn_rows (p : Package String) :
    Row.feedsIn (Package.rows 0 p) = feedsOf (Package.texts p) := by
  rw [← Declaration.rows_package, Declaration.feedsIn_rows, Declaration.texts_package]

mutual

theorem Declaration.length_rows (depth : Nat) : ∀ d : Declaration String,
    (d.rows depth).length = d.headingCount
  | .subprogram _ | .type _ | .subtype _ | .constant _ | .signal _ | .variable _ => rfl
  | .package ⟨_, _, ds, _⟩ => by
    rw [rows, headingCount, List.length_cons, Declaration.length_rowsOf (depth + 1) ds,
      Nat.add_comm]
  | .component c => by
    simp only [rows, Component.rows, headingCount, List.length_cons, List.length_map,
      List.length_append]
    omega

theorem Declaration.length_rowsOf (depth : Nat) : ∀ ds : List (Declaration String),
    (Declaration.rowsOf depth ds).length = Declaration.headingCountOf ds
  | [] => rfl
  | d :: ds => by
    rw [rowsOf, headingCountOf, List.length_append, Declaration.length_rows depth d,
      Declaration.length_rowsOf depth ds]

end

theorem Package.length_rows (depth : Nat) (p : Package String) :
    (Package.rows depth p).length = headingCount p := by
  rw [rows, ← Declaration.rowsOf_eq_flatMap, List.length_cons, Declaration.length_rowsOf,
    headingCount, Nat.add_comm]

mutual

/-- The rows some levels deeper are the rows moved to the right. -/
theorem Declaration.rows_add (k depth : Nat) : ∀ d : Declaration String,
    d.rows (k + depth) = (d.rows depth).map (Row.deeper k)
  | .subprogram _ | .type _ | .subtype _ | .constant _ | .signal _ | .variable _ => rfl
  | .package ⟨_, _, ds, _⟩ => by
    rw [rows, rows, List.map_cons, Nat.add_assoc, Declaration.rowsOf_add k (depth + 1) ds]
    rfl
  | .component c => by
    have hobjects : (c.generics ++ c.ports).map (Object.row (k + depth + 1)) =
        ((c.generics ++ c.ports).map (Object.row (depth + 1))).map (Row.deeper k) := by
      rw [List.map_map]
      rfl
    rw [rows, rows, Component.rows, Component.rows, List.map_cons, hobjects]
    rfl

theorem Declaration.rowsOf_add (k depth : Nat) : ∀ ds : List (Declaration String),
    Declaration.rowsOf (k + depth) ds = (Declaration.rowsOf depth ds).map (Row.deeper k)
  | [] => rfl
  | d :: ds => by
    rw [rowsOf, rowsOf, List.map_append, Declaration.rows_add k depth d,
      Declaration.rowsOf_add k depth ds]

end

theorem Package.rows_eq (level : Nat) (p : Package String) :
    Package.rows level p = (Package.rows 0 p).map (Row.deeper level) := by
  rw [← Declaration.rows_package, ← Declaration.rows_package, ← Declaration.rows_add, Nat.add_zero]

/-- The rows of an inner package stand behind as many rows as there are headings in front of it. -/
theorem Package.Nested.exists_rows {p q : Package String} {level before : Nat}
    (h : p.Nested level before q) :
    ∃ front back, Package.rows 0 p = front ++ Package.rows level q ++ back ∧
      front.length = before := by
  induction h with
  | self => exact ⟨[], [], by simp, rfl⟩
  | @inner level before q r ds es _ hr ih =>
    obtain ⟨front, back, hrows, hlength⟩ := ih
    refine ⟨front ++ packageRow level q.name q.declarationsOnly ::
      Declaration.rowsOf (level + 1) ds, Declaration.rowsOf (level + 1) es ++ back, ?_, ?_⟩
    · rw [hrows, Package.rows, hr]
      simp [Declaration.rows_package, Declaration.rowsOf_eq_flatMap]
    · simp only [List.length_append, List.length_cons, Declaration.length_rowsOf, hlength]
      omega

theorem Package.outline_eq (p : Package String) :
    Package.outline p = ofLines ((Package.rows 0 p).map Row.line) := by
  rw [outline, ofLines, List.map_map]
  rfl

/-- An outline has a line for each heading, and one more for each line feed in its texts. -/
theorem Package.length_lines_outline (p : Package String) :
    (lines (Package.outline p)).length = headingCount p + feedsOf (texts p) := by
  have hfeeds : feedsOf ((Package.rows 0 p).map Row.line) = Row.feedsIn (Package.rows 0 p) := by
    induction Package.rows 0 p with
    | nil => rfl
    | cons r rows ih => simp [ih, r.feeds_line]
  rw [length_lines, outline_eq, feeds_ofLines, List.length_map, length_rows, hfeeds, feedsIn_rows]

theorem Package.lines_outline {p : Package String} (h : ∀ s ∈ texts p, '\n' ∉ s.toList) :
    lines (Package.outline p) = (Package.rows 0 p).map Row.line := by
  rw [outline_eq]
  apply lines_ofLines
  intro l hl
  obtain ⟨r, hr, rfl⟩ := List.mem_map.mp hl
  have hrows : Row.feedsIn (Package.rows 0 p) = 0 := by
    rw [feedsIn_rows, feedsOf_eq_zero_iff.mpr h]
  have htext : '\n' ∉ r.text.toList :=
    feedsOf_eq_zero_iff.mp hrows r.text (List.mem_map_of_mem hr)
  rwa [← feeds_eq_zero_iff, Row.feeds_line, feeds_eq_zero_iff]

namespace Row

variable {r r' : Row} {x x' : Nat × Heading String}

theorem IsFor.exists_cons (h : r.IsFor x) : ∃ c cs, c ≠ ' ' ∧ x.2.keyword.toList = c :: cs := by
  obtain ⟨hne, hspace⟩ := h.keyword
  cases hcs : x.2.keyword.toList with
  | nil => exact absurd (String.toList_eq_nil_iff.mp hcs) hne
  | cons c cs =>
    refine ⟨c, cs, fun hc => hspace ?_, rfl⟩
    rw [hcs, hc]
    exact List.mem_cons_self

theorem IsFor.toList_text (h : r.IsFor x) :
    ∃ rest, r.text.toList = x.2.keyword.toList ++ ' ' :: rest := by
  obtain ⟨rest, hrest⟩ := h.text
  exact ⟨x.2.name.toList ++ rest.toList, by simp [hrest]⟩

/-- The keyword can be read off the row: it ends where the first space stands. -/
theorem IsFor.takeWhile_text (h : r.IsFor x) :
    r.text.toList.takeWhile (· ≠ ' ') = x.2.keyword.toList := by
  obtain ⟨rest, hrest⟩ := h.toList_text
  rw [hrest, List.takeWhile_append_of_pos]
  · simp
  · intro c hc
    have hne : c ≠ ' ' := fun hspace => h.keyword.2 (hspace ▸ hc)
    simpa using hne

/-- The spaces in front of a row are those of its level, for the keyword begins with none. -/
theorem IsFor.span_line (h : r.IsFor x) :
    r.line.toList.takeWhile (· = ' ') = List.replicate (2 * x.1) ' ' ∧
      r.line.toList.dropWhile (· = ' ') = r.text.toList := by
  obtain ⟨c, cs, hc, hkeyword⟩ := h.exists_cons
  obtain ⟨rest, hrest⟩ := h.toList_text
  have hline : r.line.toList = List.replicate (2 * x.1) ' ' ++ c :: (cs ++ ' ' :: rest) := by
    simp [line, indentation, h.depth, hrest, hkeyword]
  have hspaces : ∀ d ∈ List.replicate (2 * x.1) ' ', decide (d = ' ') = true := by
    simp
  rw [hline, List.takeWhile_append_of_pos hspaces, List.dropWhile_append_of_pos hspaces, hrest,
    hkeyword]
  simp [hc]

/-- Rows that are shown by the same line are on the same level and have the same keyword. -/
theorem IsFor.eq_of_line (h : r.IsFor x) (h' : r'.IsFor x') (hline : r.line = r'.line) :
    x.1 = x'.1 ∧ x.2.keyword = x'.2.keyword := by
  have hspaces : List.replicate (2 * x.1) ' ' = List.replicate (2 * x'.1) ' ' := by
    rw [← h.span_line.1, ← h'.span_line.1, hline]
  have htext : r.text.toList = r'.text.toList := by
    rw [← h.span_line.2, ← h'.span_line.2, hline]
  constructor
  · have hlength := congrArg List.length hspaces
    simp only [List.length_replicate] at hlength
    omega
  · rw [← String.toList_inj, ← h.takeWhile_text, ← h'.takeWhile_text, htext]

theorem eq_of_lines {rows rows' : List Row} {xs xs' : List (Nat × Heading String)}
    (h : List.Forall₂ IsFor rows xs) (h' : List.Forall₂ IsFor rows' xs')
    (hlines : rows.map line = rows'.map line) :
    xs.map (Prod.map id Heading.keyword) = xs'.map (Prod.map id Heading.keyword) := by
  induction h generalizing rows' xs' with
  | nil =>
    cases h' with
    | nil => rfl
    | cons _ _ => cases hlines
  | cons hx _ ih =>
    cases h' with
    | nil => cases hlines
    | cons hx' hxs' =>
      obtain ⟨hline, hlines⟩ := List.cons.inj hlines
      obtain ⟨hlevel, hkeyword⟩ := hx.eq_of_line hx' hline
      rw [List.map_cons, List.map_cons, ih hxs' hlines, Prod.map, Prod.map, hlevel, hkeyword]

end Row

/-- The outline of a package whose names are looked up in a table. -/
def Package.outlineIn (t : NameTable) (p : Package Symbol) : String :=
  Package.outline (Package.map t.nameOf p)

/-- The table knows all names of a package, and no text of the package has a line feed. -/
structure Package.IsSingleLined (t : NameTable) (p : Package Symbol) : Prop where
  names : ∀ x ∈ Package.names p, (t.resolve? x).isSome
  texts : ∀ s ∈ Package.texts (Package.map t.nameOf p), '\n' ∉ s.toList

/-- A line that shows a heading on a level: two spaces for each level and not one more, the keyword,
the name, and perhaps more. -/
structure Heading.IsShownBy (t : NameTable) (level : Nat) (h : Heading Symbol) (line : String) :
    Prop where
  spaces : line.toList.takeWhile (· = ' ') = List.replicate (2 * level) ' '
  text : ∃ name rest, t.resolve? h.name = some name ∧
    line = indentation level ++ h.keyword ++ " " ++ name ++ rest

theorem Row.IsFor.isShownBy {t : NameTable} {r : Row} {level : Nat} {h : Heading Symbol}
    (hname : t.resolve? h.name = some (t.nameOf h.name))
    (hr : r.IsFor (level, h.map t.nameOf)) : h.IsShownBy t level r.line := by
  obtain ⟨rest, hrest⟩ := hr.text
  refine ⟨hr.span_line.1, t.nameOf h.name, rest, hname, ?_⟩
  rw [line, hr.depth, hrest]
  simp [Heading.map, String.append_assoc]

namespace Package

variable {t : NameTable} {p q : Package Symbol}

theorem Nested.texts_subset {p q : Package String} {level before : Nat}
    (h : p.Nested level before q) : Package.texts q ⊆ Package.texts p := by
  induction h with
  | self => exact fun _ hs => hs
  | @inner _ _ q r ds es _ hr ih =>
    intro s hs
    apply ih
    rw [texts, hr, Declaration.textsOf_eq_flatMap]
    refine List.mem_cons_of_mem _ (List.mem_flatMap.mpr ⟨.package r, by simp, ?_⟩)
    rwa [Declaration.texts_package]

theorem IsSingleLined.lines_outlineIn (h : p.IsSingleLined t) :
    lines (p.outlineIn t) = (Package.rows 0 (Package.map t.nameOf p)).map Row.line :=
  lines_outline h.texts

/-- The names of the headings are found. -/
theorem IsSingleLined.resolve?_heading (h : p.IsSingleLined t) :
    ∀ x ∈ (Package.nest p).levels 0, t.resolve? x.2.name = some (t.nameOf x.2.name) := by
  have hmap : Package.map t.resolve? p = Package.map (some ∘ t.nameOf) p :=
    map_congr fun x hx => NameTable.resolve?_eq_some_nameOf (h.names x hx)
  have hlevels := congrArg (fun p => (Package.nest p).levels 0) hmap
  simp only [nest_map, Nest.levels_map] at hlevels
  intro x hx
  have hheading := List.map_inj_left.mp hlevels x hx
  exact congrArg (fun y => y.2.name) hheading

theorem IsSingleLined.isShownBy_lines (h : p.IsSingleLined t) :
    List.Forall₂ (fun x line => x.2.IsShownBy t x.1 line) ((Package.nest p).levels 0)
      (lines (p.outlineIn t)) := by
  have hrows := (isFor_rows (Package.map t.nameOf p)).flip
  rw [nest_map, Nest.levels_map, List.forall₂_map_left_iff] at hrows
  rw [h.lines_outlineIn, List.forall₂_map_right_iff]
  have hboth := (List.forall₂_and_left _ _).mpr ⟨h.resolve?_heading, hrows⟩
  exact hboth.imp fun _ _ hx => hx.2.isShownBy hx.1

/-- The lines of an inner package are those of its own outline, moved to the right. -/
theorem IsSingleLined.lines_nested (h : p.IsSingleLined t) {level before : Nat}
    (hq : p.Nested level before q) :
    ((lines (p.outlineIn t)).drop before).take (lines (q.outlineIn t)).length =
      (lines (q.outlineIn t)).map (indentation level ++ ·) := by
  have hnested := hq.map t.nameOf
  have hinner : lines (q.outlineIn t) = (Package.rows 0 (Package.map t.nameOf q)).map Row.line :=
    lines_outline fun s hs => h.texts s (hnested.texts_subset hs)
  obtain ⟨front, back, hrows, rfl⟩ := hnested.exists_rows
  rw [h.lines_outlineIn, hrows, hinner, rows_eq level, List.append_assoc, List.map_append,
    List.map_append, List.map_map, List.length_map]
  have hdeeper : Row.line ∘ Row.deeper level = (indentation level ++ ·) ∘ Row.line :=
    funext fun r => r.line_deeper level
  rw [List.drop_left' (by simp), List.take_left' (by simp), List.map_map, hdeeper]

/-- The keywords and how they are nested can be read off the outline. -/
theorem keywords_eq_of_outlineIn_eq {u : NameTable} (hp : p.IsSingleLined t)
    (hq : q.IsSingleLined u) (h : p.outlineIn t = q.outlineIn u) : keywords p = keywords q := by
  have hlines := congrArg lines h
  rw [hp.lines_outlineIn, hq.lines_outlineIn] at hlines
  have hlevels := Row.eq_of_lines (isFor_rows _) (isFor_rows _) hlines
  rw [keywords, keywords]
  apply @Nest.levels_inj _ 0
  rw [Nest.levels_map, Nest.levels_map]
  rw [nest_map, nest_map, Nest.levels_map, Nest.levels_map, List.map_map, List.map_map] at hlevels
  exact hlevels

/-- An outline consists of complete lines, one for each heading in pre-order, an inner package has
the lines of its own outline, and packages with the same outline have the same tree of keywords. -/
theorem outline_shows_nesting :
    (∀ (t : NameTable) (p : Package Symbol), p.IsSingleLined t →
      ofLines (lines (p.outlineIn t)) = p.outlineIn t ∧
      List.Forall₂ (fun x line => x.2.IsShownBy t x.1 line) ((Package.nest p).levels 0)
        (lines (p.outlineIn t)) ∧
      ∀ (level before : Nat) (q : Package Symbol), p.Nested level before q →
        ((lines (p.outlineIn t)).drop before).take (lines (q.outlineIn t)).length =
          (lines (q.outlineIn t)).map (indentation level ++ ·)) ∧
    ∀ (t u : NameTable) (p q : Package Symbol), p.IsSingleLined t → q.IsSingleLined u →
      p.outlineIn t = q.outlineIn u → keywords p = keywords q := by
  refine ⟨fun t p hp => ⟨?_, hp.isShownBy_lines, fun _ _ _ hq => hp.lines_nested hq⟩,
    fun _ _ _ _ hp hq h => keywords_eq_of_outlineIn_eq hp hq h⟩
  rw [hp.lines_outlineIn]
  exact (outline_eq _).symm

/-- A package inside a package, with a component. -/
def innerReading (name component generic port : Symbol) : Package Symbol :=
  ⟨name, false, [.component ⟨component, [⟨generic, .generic, none, none, none, ⟨⟨0⟩, ⟨7, 8⟩⟩⟩],
    [⟨port, .port, some .output, none, none, ⟨⟨0⟩, ⟨8, 9⟩⟩⟩], ⟨⟨0⟩, ⟨6, 10⟩⟩⟩], ⟨⟨0⟩, ⟨5, 11⟩⟩⟩

/-- A package that declares a constant and then another package. -/
def outerReading (name constant : Symbol) (type : String) (value : Option String)
    (inner : Package Symbol) : Package Symbol :=
  ⟨name, true, [.constant ⟨constant, .constant, none, some ⟨type, ⟨⟨0⟩, ⟨2, 3⟩⟩⟩,
    value.map fun v => ⟨v, ⟨⟨0⟩, ⟨3, 4⟩⟩⟩, ⟨⟨0⟩, ⟨1, 5⟩⟩⟩, .package inner], ⟨⟨0⟩, ⟨0, 12⟩⟩⟩

/-- Two packages over different tables have one outline: what is a type and a value in one of them
is the type in the other. -/
theorem readings_show_nesting :
    let t : NameTable := ⟨["p", "k", "r", "c", "g", "a"], by decide⟩
    let u : NameTable := ⟨["a", "g", "c", "r", "k", "p"], by decide⟩
    let r := innerReading ⟨2⟩ ⟨3⟩ ⟨4⟩ ⟨5⟩
    let p := outerReading ⟨0⟩ ⟨1⟩ "t" (some "1 : signal k") r
    let q := outerReading ⟨5⟩ ⟨4⟩ "t := 1 : signal k" none (innerReading ⟨3⟩ ⟨2⟩ ⟨1⟩ ⟨0⟩)
    (p.IsSingleLined t ∧ q.IsSingleLined u ∧ p.outlineIn t = q.outlineIn u ∧ p.Nested 1 2 r) ∧
    ofLines (lines (p.outlineIn t)) = p.outlineIn t ∧
    ((lines (p.outlineIn t)).drop 2).take (lines (r.outlineIn t)).length =
      (lines (r.outlineIn t)).map (indentation 1 ++ ·) ∧
    keywords p = keywords q := by
  intro t u r p q
  have hp : p.IsSingleLined t := ⟨by decide +kernel, by decide +kernel⟩
  have hq : q.IsSingleLined u := ⟨by decide +kernel, by decide +kernel⟩
  have hbehind : p.declarations = p.declarations.take 1 ++ .package r :: [] := rfl
  have hr : p.Nested 1 2 r := .inner .self hbehind
  have houtline : p.outlineIn t = q.outlineIn u := by decide +kernel
  obtain ⟨hlines, -, hinner⟩ := outline_shows_nesting.1 t p hp
  exact ⟨⟨hp, hq, houtline, hr⟩, hlines, hinner 1 2 r hr,
    outline_shows_nesting.2 t u p q hp hq houtline⟩

end Package

end VhdlLowering
