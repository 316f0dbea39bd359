import VhdlLowering.Proofs.Values
import VhdlLowering.Syntax.Document

/-!
# What is written for a tree

The document of a tree is an object in which all fields stand, in their order and without blanks.
-/

namespace VhdlLowering

open Json

namespace Json

/-- Without blanks the lexemes follow each other. -/
theorem spread_nil (ls : List Lexeme) : spread (fun _ => []) ls = ls.flatMap Lexeme.text := by
  induction ls with
  | nil => rfl
  | cons l ls ih => rw [spread, ih, List.flatMap_cons]; rfl

namespace Value

/-- The text of a value without blanks. -/
def text (v : Value) : List Char := v.lexemes.flatMap Lexeme.text

/-- An object with the given fields. -/
def ofFields (fields : List (String × Value)) : Value :=
  .object (fields.map fun m => (.ofString m.1, m.2))

/-- The fields of an object are scanned with their keys. -/
theorem HasShapes.exists_fields {fields : List (String × Value)} {shapes : List Shape}
    (h : (ofFields fields).HasShapes shapes) :
    ∃ values, shapes = objectShapes ((fields.map Prod.fst).zip values) ∧
      List.Forall₂ HasShapes (fields.map Prod.snd) values := by
  have hkeys : ∀ m ∈ fields.map fun m => (Literal.ofString m.1, m.2), ∃ key, m.1.Spells key := by
    intro m hm
    obtain ⟨m, -, rfl⟩ := List.mem_map.mp hm
    exact ⟨m.1, spells_ofString m.1⟩
  obtain ⟨es, hes, rfl⟩ := exists_objectShapes hkeys h
  clear h hkeys
  rw [List.forall₂_map_left_iff] at hes
  refine ⟨es.map Prod.snd, congrArg objectShapes ?_, ?_⟩
  · induction hes with
    | nil => rfl
    | @cons m e fields es hm _ ih =>
      rw [List.map_cons, List.map_cons, List.zip_cons_cons, ← ih, ← hm.1.unique (spells_ofString m.1)]
  · exact List.forall₂_map_left_iff.mpr (List.forall₂_map_right_iff.mpr (hes.imp fun _ _ hm => hm.2))

end Value

end Json

/-- The value that is written for a span. -/
def Span.written (s : Span) : Value :=
  .ofFields [("start", .numeral (.natural s.start.toNat)), ("end", .numeral (.natural s.stop.toNat))]

namespace Node

mutual

/-- The value that is written for a tree. -/
def written : Node → Value
  | ⟨kind, span, text, cs⟩ =>
    .ofFields [("kind", .literal (.ofString kind.name)), ("span", span.written),
      ("text", .literal (.ofString text)), ("children", .list (writtenAmong cs))]

def writtenAmong : List Node → List Value
  | [] => []
  | c :: cs => c.written :: writtenAmong cs

end

end Node

theorem text_natural (n : UInt32) :
    (WrittenNumeral.natural n.toNat).text = (toString n).toList :=
  (List.append_nil _).trans Nat.toList_repr.symm

theorem Span.text_written (s : Span) : s.written.text = s.toJson.toList := by
  have hstart : "\x7b\"start\":".toList = '{' :: (encode "start").toList ++ [':'] := by decide
  have hend : ",\"end\":".toList = ',' :: (encode "end").toList ++ [':'] := by decide
  have hclose : "\x7d".toList = ['}'] := by decide
  simp only [toJson, String.toList_append, hstart, hend, hclose, encode_eq_text, ← text_natural]
  simp [Value.text, written, Value.ofFields, Value.lexemes, Value.memberLexemes, Value.separator,
    Lexeme.text, Mark.char]

namespace Node

mutual

theorem text_written : ∀ n : Node, n.written.text = n.toJson.toList
  | ⟨kind, span, text, cs⟩ => by
    have hkind : "\x7b\"kind\":".toList = '{' :: (encode "kind").toList ++ [':'] := by decide
    have hspan : ",\"span\":".toList = ',' :: (encode "span").toList ++ [':'] := by decide
    have htext : ",\"text\":".toList = ',' :: (encode "text").toList ++ [':'] := by decide
    have hchildren : ",\"children\":[".toList = ',' :: (encode "children").toList ++ [':', '['] := by
      decide
    have hclose : "]\x7d".toList = [']', '}'] := by decide
    have hjson : toJson ⟨kind, span, text, cs⟩ =
        "\x7b\"kind\":" ++ encode kind.name ++ ",\"span\":" ++ span.toJson ++ ",\"text\":" ++
          encode text ++ ",\"children\":[" ++ toJsonList cs ++ "]\x7d" := rfl
    rw [hjson]
    simp only [String.toList_append, hkind, hspan, htext, hchildren, hclose, encode_eq_text,
      ← span.text_written, ← text_writtenAmong cs]
    simp [Value.text, written, Value.ofFields, Value.lexemes, Value.memberLexemes, Value.separator,
      Lexeme.text, Mark.char]

theorem text_writtenAmong : ∀ cs : List Node,
    (Value.itemLexemes true (writtenAmong cs)).flatMap Lexeme.text = (toJsonList cs).toList
  | [] => rfl
  | [c] => by
    rw [toJsonList, ← text_written c]
    simp [Value.text, writtenAmong, Value.itemLexemes, Value.separator]
  | c :: d :: ds => by
    have hlist : toJsonList (c :: d :: ds) = c.toJson ++ "," ++ toJsonList (d :: ds) := rfl
    have hcomma : ",".toList = [','] := by decide
    rw [hlist, String.toList_append, String.toList_append, ← text_written c,
      ← text_writtenAmong (d :: ds), hcomma]
    simp [Value.text, writtenAmong, Value.itemLexemes, Value.separator, Lexeme.text, Mark.char]

end

/-- The document of a tree is written without blanks. -/
theorem document_written (n : Node) : n.written.document (fun _ => []) = n.toJson := by
  rw [Value.document, spread_nil]
  exact (congrArg String.ofList n.text_written).trans String.ofList_toList

end Node

end VhdlLowering
