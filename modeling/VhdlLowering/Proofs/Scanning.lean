import Mathlib.Data.List.Chain
import Mathlib.Data.List.Forall2
import VhdlLowering.Proofs.Literals
import VhdlLowering.Proofs.Numerals

/-!
# Scanning what is written

The scanner cuts a document into its lexemes. A literal comes back as one token with the text that it
spells, a number as one numeral with its value, and marks and words as themselves, whatever follows and
whatever blanks are in between; so a text can be scanned part by part.
-/

namespace VhdlLowering
namespace Json

theorem isSpace_of_startsNumeral {c : Char} (h : c = '-' ∨ c.isDigit = true) : isSpace c = false := by
  refine Bool.eq_false_iff.mpr fun hspace => ?_
  simp only [isSpace, Bool.or_eq_true, beq_iff_eq] at hspace
  rcases hspace with ((rfl | rfl) | rfl) | rfl <;> rcases h with h | h <;> cases h

theorem scanToken_of_startsNumeral {c : Char} {cs : List Char} {pos : Nat} {r : Scanned Numeral}
    (h : c = '-' ∨ c.isDigit = true) (hr : scanNumeral pos (c :: cs) = .ok r) :
    scanToken pos c cs =
      (⟨.numeral (r.value.value r.stop) (.ok ()), pos, r.stop⟩, some r.rest) := by
  have hmark : mark? c = none := by
    unfold mark?
    split <;> first | rfl | rcases h with h | h <;> cases h
  have hword : word? c = none := by
    unfold word?
    split <;> first | rfl | rcases h with h | h <;> cases h
  have hquote : c ≠ '"' := by
    rintro rfl
    rcases h with h | h <;> cases h
  rw [scanToken, hmark, hword]
  simp only [if_neg hquote, if_pos h, hr]

def Mark.shape : Mark → Shape
  | openBracket => .openBracket
  | closeBracket => .closeBracket
  | openBrace => .openBrace
  | closeBrace => .closeBrace
  | comma => .comma
  | colon => .colon

/-- A token of the shape is what the lexeme is scanned as. -/
def Lexeme.Shows : Lexeme → Shape → Prop
  | mark m, s => s = m.shape
  | word w, s => s = .word (.ok w)
  | numeral x, s => ∃ value, s = .numeral value (.ok ()) ∧
      ∀ n < UInt64.size, x = .natural n → value = .ok (.natural n)
  | literal l, s => ∃ value, s = .literal value (.ok ()) ∧ ∀ t, l.Spells t → value = .ok t

/-- The front of a text is cut into tokens that have the property, up to the given rest. -/
def Cuts (P : List Token → Prop) (cs rest : List Char) : Prop :=
  ∀ fuel pos, cs.length ≤ fuel → ∃ ts fuel' stop, P ts ∧
    rest.length ≤ fuel' ∧ scanFrom fuel pos cs = ts ++ scanFrom fuel' stop rest

namespace Cuts

variable {P Q R : List Token → Prop} {as bs cs rest : List Char}

theorem refl (hP : P []) (cs : List Char) : Cuts P cs cs :=
  fun fuel pos hfuel => ⟨[], fuel, pos, hP, hfuel, rfl⟩

theorem append (h : Cuts P as bs) (h' : Cuts Q bs cs) (hR : ∀ ts us, P ts → Q us → R (ts ++ us)) :
    Cuts R as cs := by
  intro fuel pos hfuel
  obtain ⟨ts, fuel', stop, hts, hfuel', hscan⟩ := h fuel pos hfuel
  obtain ⟨us, fuel'', stop', hus, hfuel'', hscan'⟩ := h' fuel' stop hfuel'
  exact ⟨ts ++ us, fuel'', stop', hR ts us hts hus, hfuel'',
    by rw [hscan, hscan', List.append_assoc]⟩

/-- A blank is passed over. -/
theorem blank (b : Blank) (h : Cuts P cs rest) : Cuts P (b.char :: cs) rest := by
  intro fuel pos hfuel
  match fuel with
  | 0 => cases hfuel
  | fuel + 1 =>
    have hspace : isSpace b.char = true := by cases b <;> rfl
    rw [scanFrom, if_pos hspace]
    exact h fuel (pos + 1) (Nat.le_of_succ_le_succ hfuel)

theorem gap (bs : List Blank) (h : Cuts P cs rest) : Cuts P (bs.map Blank.char ++ cs) rest := by
  induction bs with
  | nil => exact h
  | cons b bs ih => exact blank b ih

/-- One token. -/
theorem token {c : Char} (hspace : isSpace c = false) (hlength : bs.length ≤ as.length)
    (h : ∀ pos, ∃ t, P [t] ∧ scanToken pos c as = (t, some bs)) : Cuts P (c :: as) bs := by
  intro fuel pos hfuel
  match fuel with
  | 0 => cases hfuel
  | fuel + 1 =>
    obtain ⟨t, ht, hscan⟩ := h pos
    refine ⟨[t], fuel, t.stop, ht, ?_, ?_⟩
    · simp only [List.length_cons] at hfuel
      omega
    · rw [scanFrom, if_neg (by simp [hspace]), hscan]
      rfl

theorem mark {c : Char} {shape : Shape} (hc : mark? c = some shape)
    (hP : ∀ t : Token, t.shape = shape → P [t]) : Cuts P (c :: cs) cs := by
  refine token ?_ le_rfl fun pos => ⟨⟨shape, pos, pos + 1⟩, hP _ rfl, by rw [scanToken, hc]⟩
  unfold mark? at hc
  split at hc <;> first | rfl | cases hc

theorem word (w : Word) (hP : ∀ t : Token, t.shape = .word (.ok w) → P [t]) :
    Cuts P (w.text ++ cs) cs := by
  obtain ⟨c, as, hw, hspace, hscan⟩ : ∃ c as, w.text = c :: as ∧ isSpace c = false ∧
      ∀ pos, ∃ stop, scanToken pos c (as ++ cs) = (⟨.word (.ok w), pos, stop⟩, some cs) := by
    match w with
    | .null | .bool true | .bool false => exact ⟨_, _, rfl, by decide, fun pos => ⟨_, rfl⟩⟩
  rw [hw, List.cons_append]
  refine token hspace (by simp) fun pos => ?_
  obtain ⟨stop, hstop⟩ := hscan pos
  exact ⟨_, hP _ rfl, hstop⟩

theorem literal (l : Literal) (hP : ∀ t : Token, (Lexeme.literal l).Shows t.shape → P [t]) :
    Cuts P (l.text ++ cs) cs := by
  rw [Literal.text, List.cons_append, List.append_assoc, List.singleton_append]
  refine token rfl (by simp; omega) fun pos => ?_
  obtain ⟨stop, hpass⟩ := passOver_pieces l.pieces (pos + 1) cs
  refine ⟨_, hP ⟨.literal ((decode (pos + 1) none .plain []
    (l.pieces.flatMap Piece.text ++ '"' :: cs)).map Prod.fst) (.ok ()), pos, stop⟩
    ⟨_, rfl, fun s hs => ?_⟩, ?_⟩
  · obtain ⟨stop, hdecode⟩ := decode_spells hs (pos + 1) [] cs
    rw [hdecode, List.reverse_nil, List.nil_append, String.ofList_toList]
    rfl
  · rw [scanToken]
    simp [mark?, word?, hpass]

theorem numeral (x : WrittenNumeral) (hcs : EndsNumeral cs)
    (hP : ∀ t : Token, (Lexeme.numeral x).Shows t.shape → P [t]) : Cuts P (x.text ++ cs) cs := by
  obtain ⟨c, as, htext, hc⟩ := x.exists_text_eq_cons
  have hscan := fun pos => scanNumeral_text pos x hcs
  rw [htext, List.cons_append] at hscan ⊢
  refine token (isSpace_of_startsNumeral hc) (by simp) fun pos => ?_
  obtain ⟨stop, hscan⟩ := hscan pos
  refine ⟨_, hP _ ⟨_, rfl, fun n hn hx => ?_⟩, scanToken_of_startsNumeral hc hscan⟩
  rw [hx]
  exact value_decimalDigits hn stop

theorem lexeme (l : Lexeme) (hcs : ∀ x, l = .numeral x → EndsNumeral cs)
    (hP : ∀ t : Token, l.Shows t.shape → P [t]) : Cuts P (l.text ++ cs) cs := by
  cases l with
  | mark m =>
    have hmark : mark? m.char = some m.shape := by cases m <;> rfl
    exact mark hmark hP
  | word w => exact word w hP
  | numeral x => exact numeral x (hcs x rfl) hP
  | literal l => exact literal l hP

/-- A text that is scanned to its end. -/
theorem tokens {document : String} (h : Cuts P document.toList []) : P (Json.tokens document) := by
  obtain ⟨ts, fuel, stop, hts, -, hscan⟩ := h document.length 0 String.length_toList.le
  have hend : scanFrom fuel stop [] = [] := by cases fuel <;> rfl
  rwa [Json.tokens, hscan, hend, List.append_nil]

end Cuts

/-- The tokens are what the lexemes are scanned as. -/
def Shown (ls : List Lexeme) (ts : List Token) : Prop :=
  List.Forall₂ (fun l t => l.Shows t.shape) ls ts

/-- What comes next is a mark, if anything comes. -/
def MarkNext (ls : List Lexeme) : Prop := ∀ l ∈ ls.head?, ∃ m, l = .mark m

theorem markNext_cons (m : Mark) (ls : List Lexeme) : MarkNext (.mark m :: ls) := by
  intro l hl
  cases hl
  exact ⟨m, rfl⟩

theorem endsNumeral_gap (bs : List Blank) {cs : List Char} (h : EndsNumeral cs) :
    EndsNumeral (bs.map Blank.char ++ cs) := by
  cases bs with
  | nil => exact h
  | cons b bs =>
    intro c hc
    cases hc
    cases b <;> decide

/-- A mark or a blank ends a numeral. -/
theorem endsNumeral_spread {ls : List Lexeme} (h : MarkNext ls) (gaps : Nat → List Blank) :
    EndsNumeral (spread gaps ls) := by
  cases ls with
  | nil =>
    rw [spread, ← List.append_nil (List.map _ _)]
    exact endsNumeral_gap _ nofun
  | cons l ls =>
    obtain ⟨m, rfl⟩ := h l rfl
    refine endsNumeral_gap _ fun c hc => ?_
    cases hc
    cases m <;> decide

/-- Behind a numeral there is a mark or nothing. -/
def Apart (ls : List Lexeme) : Prop := ls.IsChain fun l l' => ∀ x, l = .numeral x → ∃ m, l' = .mark m

/-- Lexemes that are written with blanks between them are what is scanned. -/
theorem cuts_spread {ls : List Lexeme} (h : Apart ls) (gaps : Nat → List Blank) :
    Cuts (Shown ls) (spread gaps ls) [] := by
  induction ls generalizing gaps with
  | nil =>
    have hgap := Cuts.gap (gaps 0) (Cuts.refl (P := Shown []) .nil [])
    rwa [List.append_nil] at hgap
  | cons l ls ih =>
    obtain ⟨hhead, htail⟩ := List.isChain_cons.mp h
    refine Cuts.gap (gaps 0) (Cuts.append (P := Shown [l]) (Cuts.lexeme l (fun x hx => ?_)
      fun t ht => ?_) (ih htail _) fun ts us hts hus => ?_)
    · exact endsNumeral_spread (fun l' hl' => hhead l' hl' x hx) _
    · exact .cons ht .nil
    · exact List.rel_append hts hus

theorem apart_cons {l : Lexeme} {ls : List Lexeme} (h : Apart ls) (hmark : MarkNext ls) :
    Apart (l :: ls) :=
  List.isChain_cons.mpr ⟨fun l' hl' _ _ => hmark l' hl', h⟩

theorem apart_cons_mark {m : Mark} {ls : List Lexeme} (h : Apart ls) : Apart (.mark m :: ls) :=
  List.isChain_cons.mpr ⟨nofun, h⟩

namespace Value

theorem markNext_items {vs : List Value} {ls : List Lexeme} (h : MarkNext ls) :
    MarkNext (itemLexemes false vs ++ ls) := by
  cases vs with
  | nil => exact h
  | cons v vs => exact markNext_cons .comma _

theorem markNext_members {ms : List (Literal × Value)} {ls : List Lexeme} (h : MarkNext ls) :
    MarkNext (memberLexemes false ms ++ ls) := by
  cases ms with
  | nil => exact h
  | cons m ms => exact markNext_cons .comma _

theorem apart_separator (first : Bool) {ls : List Lexeme} (h : Apart ls) :
    Apart (separator first ++ ls) := by
  cases first with
  | true => exact h
  | false => exact apart_cons_mark h

mutual

theorem apart_append : ∀ (v : Value) {ls : List Lexeme}, Apart ls → MarkNext ls →
    Apart (v.lexemes ++ ls)
  | word _, _, h, hmark | numeral _, _, h, hmark | literal _, _, h, hmark =>
    apart_cons h hmark
  | list vs, ls, h, hmark => by
    rw [lexemes, List.cons_append, List.append_assoc]
    exact apart_cons_mark (apart_items true vs (apart_cons_mark h) (markNext_cons _ _))
  | object ms, ls, h, hmark => by
    rw [lexemes, List.cons_append, List.append_assoc]
    exact apart_cons_mark (apart_members true ms (apart_cons_mark h) (markNext_cons _ _))

theorem apart_items (first : Bool) : ∀ (vs : List Value) {ls : List Lexeme}, Apart ls →
    MarkNext ls → Apart (itemLexemes first vs ++ ls)
  | [], _, h, _ => h
  | v :: vs, ls, h, hmark => by
    rw [itemLexemes, List.append_assoc, List.append_assoc]
    exact apart_separator first (apart_append v (apart_items false vs h hmark) (markNext_items hmark))

theorem apart_members (first : Bool) : ∀ (ms : List (Literal × Value)) {ls : List Lexeme},
    Apart ls → MarkNext ls → Apart (memberLexemes first ms ++ ls)
  | [], _, h, _ => h
  | (key, v) :: ms, ls, h, hmark => by
    rw [memberLexemes, List.append_assoc, List.cons_append, List.cons_append, List.append_assoc]
    refine apart_separator first (apart_cons (apart_cons_mark ?_) (markNext_cons _ _))
    exact apart_append v (apart_members false ms h hmark) (markNext_members hmark)

end

/-- A document is cut into the lexemes of its value. -/
theorem shown_tokens (v : Value) (gaps : Nat → List Blank) :
    Shown v.lexemes (tokens (v.document gaps)) := by
  have hapart : Apart (v.lexemes ++ []) := v.apart_append .nil nofun
  rw [List.append_nil] at hapart
  refine Cuts.tokens ?_
  rw [document, String.toList_ofList]
  exact cuts_spread hapart gaps

end Value

end Json
end VhdlLowering
