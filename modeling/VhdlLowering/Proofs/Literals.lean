import Mathlib.Tactic.SplitIfs
import VhdlLowering.Json.Written

/-!
# Reading string literals

A literal is decoded to what it spells, whatever follows it, and every literal can be passed over. What
is written for a text is a literal that spells it.
-/

namespace VhdlLowering
namespace Json

namespace HexDigit

variable (d : HexDigit)

theorem hexDigit?_char : hexDigit? d.char = some d.value.val := by
  obtain ⟨value, capital⟩ := d
  revert value capital
  decide

theorem utf8Size_char : d.char.utf8Size = 1 := by
  obtain ⟨value, capital⟩ := d
  revert value capital
  decide

theorem addDigit_char (n : Nat) : addDigit (some n) d.char = some (16 * n + d.value) := by
  rw [addDigit, hexDigit?_char]
  rfl

end HexDigit

section Steps

variable (pos : Nat) (pending : Option Nat) (done cs : List Char)

theorem decode_digit {seen : Nat} (value : Option Nat) (d : HexDigit) (hseen : seen < 3) :
    decode pos pending (.digits seen value) done (d.char :: cs) =
      decode (pos + 1) pending (.digits (seen + 1) (addDigit value d.char)) done cs := by
  rw [decode.eq_def]
  simp only [d.utf8Size_char]
  exact if_pos (by omega)

/-- Where decoding goes on behind the four digits of an escape. -/
theorem decode_unit (u : CodeUnit) :
    decode pos pending .plain done ((Piece.unit u).text ++ cs) =
      match pending with
      | none =>
        if isTrailing u.value then .error ⟨.loneSurrogate, some (pos + 6)⟩
        else if isLeading u.value then decode (pos + 6) (some u.value) .plain done cs
        else decode (pos + 6) none .plain (Char.ofNat u.value :: done) cs
      | some leading =>
        if isTrailing u.value then
          decode (pos + 6) none .plain (joinSurrogates leading u.value :: done) cs
        else .error ⟨.loneSurrogate, some (pos + 6)⟩ := by
  have hdigits : decode pos pending .plain done ((Piece.unit u).text ++ cs) =
      decode (pos + 5) pending (.digits 3 (some (16 * (16 * u.first.value + u.second.value) +
        u.third.value))) done (u.fourth.char :: cs) := by
    have hstart : decode pos pending .plain done ((Piece.unit u).text ++ cs) =
        decode (pos + 2) pending (.digits 0 (some 0)) done (u.text ++ cs) := by
      cases pending <;> rfl
    rw [hstart, CodeUnit.text, List.cons_append, List.cons_append, List.cons_append,
      decode_digit _ _ _ _ _ _ (by decide), decode_digit _ _ _ _ _ _ (by decide),
      decode_digit _ _ _ _ _ _ (by decide)]
    simp only [HexDigit.addDigit_char, Nat.mul_zero, Nat.zero_add, List.singleton_append]
  rw [hdigits, decode.eq_def]
  simp only [u.fourth.utf8Size_char, u.fourth.addDigit_char]
  rw [if_neg (by decide)]
  cases pending <;> rfl

theorem decode_escape (e : Escape) :
    decode pos none .plain done ((Piece.escape e).text ++ cs) =
      decode (pos + 2) none .plain (e.char :: done) cs := by
  cases e <;> rfl

theorem decode_plain {c : Char} (hquote : c ≠ '"') (hbackslash : c ≠ '\\')
    (hcontrol : ¬c.toNat < 0x20) :
    decode pos none .plain done (c :: cs) =
      decode (pos + c.utf8Size) none .plain (c :: done) cs := by
  rw [decode, if_neg hquote, if_neg hbackslash, if_neg hcontrol]

end Steps

/-- The number of a character is no surrogate. -/
theorem toNat_lt_or_gt (c : Char) : c.toNat < 0xD800 ∨ 0xDFFF < c.toNat :=
  c.valid.imp_right And.left

theorem isTrailing_toNat (c : Char) : isTrailing c.toNat = false := by
  have := toNat_lt_or_gt c
  simp [isTrailing]
  omega

theorem isLeading_toNat (c : Char) : isLeading c.toNat = false := by
  have := toNat_lt_or_gt c
  simp [isLeading]
  omega

/-- A literal is decoded to what it spells, whatever follows it. -/
theorem decode_spells {ps : List Piece} {cs : List Char} (h : Spells ps cs) (pos : Nat)
    (done rest : List Char) :
    ∃ stop, decode pos none .plain done (ps.flatMap Piece.text ++ '"' :: rest) =
      .ok (String.ofList (done.reverse ++ cs), stop, rest) := by
  induction h generalizing pos done with
  | nil => exact ⟨pos + 1, by rw [List.append_nil]; rfl⟩
  | @plain c hquote hbackslash hcontrol ps cs _ ih =>
    obtain ⟨stop, hstop⟩ := ih (pos + c.utf8Size) (c :: done)
    refine ⟨stop, ?_⟩
    rw [List.flatMap_cons, Piece.text, List.singleton_append, List.cons_append,
      decode_plain _ _ _ hquote hbackslash hcontrol, hstop, List.reverse_cons, List.append_assoc,
      List.singleton_append]
  | @escape e ps cs _ ih =>
    obtain ⟨stop, hstop⟩ := ih (pos + 2) (e.char :: done)
    refine ⟨stop, ?_⟩
    rw [List.flatMap_cons, List.append_assoc, decode_escape, hstop, List.reverse_cons,
      List.append_assoc, List.singleton_append]
  | @unit u c ps cs hc _ ih =>
    have htrailing : isTrailing u.value = false := hc ▸ isTrailing_toNat c
    have hleading : isLeading u.value = false := hc ▸ isLeading_toNat c
    obtain ⟨stop, hstop⟩ := ih (pos + 6) (c :: done)
    refine ⟨stop, ?_⟩
    rw [List.flatMap_cons, List.append_assoc, decode_unit]
    simp only [htrailing, hleading, Bool.false_eq_true, if_false]
    rw [← hc, Char.ofNat_toNat, hstop, List.reverse_cons, List.append_assoc, List.singleton_append]
  | @pair u v c ps cs hu hv hc _ ih =>
    have htrailing : isTrailing u.value = false := by simp [isTrailing]; omega
    have hleading : isLeading u.value = true := by simp [isLeading]; omega
    have hpartner : isTrailing v.value = true := by simp [isTrailing]; omega
    have hjoin : joinSurrogates u.value v.value = c := by rw [joinSurrogates, ← hc, Char.ofNat_toNat]
    obtain ⟨stop, hstop⟩ := ih (pos + 12) (c :: done)
    refine ⟨stop, ?_⟩
    rw [List.flatMap_cons, List.flatMap_cons, List.append_assoc, List.append_assoc, decode_unit]
    simp only [htrailing, hleading, Bool.false_eq_true, if_false, if_true]
    rw [decode_unit]
    simp only [hpartner, if_true, hjoin]
    rw [hstop, List.reverse_cons, List.append_assoc, List.singleton_append]

/-- A literal spells at most one text. -/
theorem Literal.Spells.unique {l : Literal} {s t : String} (hs : l.Spells s) (ht : l.Spells t) :
    s = t := by
  obtain ⟨_, hs⟩ := decode_spells hs 0 [] []
  obtain ⟨_, ht⟩ := decode_spells ht 0 [] []
  have heq := congrArg Prod.fst (Except.ok.inj (hs.symm.trans ht))
  simpa using heq

section Steps

variable (pos : Nat) (cs : List Char)

theorem passOver_digit {seen : Nat} (value : Option Nat) (d : HexDigit) (hseen : seen < 3) :
    passOver pos (.digits seen value) (d.char :: cs) =
      passOver (pos + 1) (.digits (seen + 1) (addDigit value d.char)) cs := by
  rw [passOver.eq_def]
  simp only [d.utf8Size_char]
  exact if_pos (by omega)

theorem passOver_unit (u : CodeUnit) :
    passOver pos .plain ((Piece.unit u).text ++ cs) = passOver (pos + 6) .plain cs := by
  have hstart : passOver pos .plain ((Piece.unit u).text ++ cs) =
      passOver (pos + 2) (.digits 0 (some 0)) (u.text ++ cs) := rfl
  rw [hstart, CodeUnit.text, List.cons_append, List.cons_append, List.cons_append,
    passOver_digit _ _ _ _ (by decide), passOver_digit _ _ _ _ (by decide),
    passOver_digit _ _ _ _ (by decide), passOver.eq_def]
  simp only [HexDigit.addDigit_char, List.singleton_append, u.fourth.utf8Size_char]
  rfl

theorem passOver_escape (e : Escape) :
    passOver pos .plain ((Piece.escape e).text ++ cs) = passOver (pos + 2) .plain cs := by
  cases e <;> rfl

theorem passOver_plain {c : Char} (hquote : c ≠ '"') (hbackslash : c ≠ '\\')
    (hcontrol : ¬c.toNat < 0x20) :
    passOver pos .plain (c :: cs) = passOver (pos + c.utf8Size) .plain cs := by
  rw [passOver, if_neg hquote, if_neg hbackslash, if_neg hcontrol]

end Steps

/-- Every literal can be passed over, whatever follows it. -/
theorem passOver_pieces (ps : List Piece) (pos : Nat) (rest : List Char) :
    ∃ stop, passOver pos .plain (ps.flatMap Piece.text ++ '"' :: rest) = .ok (stop, rest) := by
  induction ps generalizing pos with
  | nil => exact ⟨pos + 1, rfl⟩
  | cons p ps ih =>
    obtain ⟨next, hnext⟩ : ∃ next, passOver pos .plain (p.text ++ (ps.flatMap Piece.text ++
        '"' :: rest)) = passOver next .plain (ps.flatMap Piece.text ++ '"' :: rest) := by
      cases p with
      | plain c hquote hbackslash hcontrol => exact ⟨_, passOver_plain _ _ hquote hbackslash hcontrol⟩
      | escape e => exact ⟨_, passOver_escape _ _ e⟩
      | unit u => exact ⟨_, passOver_unit _ _ u⟩
    rw [List.flatMap_cons, List.append_assoc, hnext]
    exact ih next

theorem text_ofChar (c : Char) : (Piece.ofChar c).text = escapeChar c := by
  unfold Piece.ofChar escapeChar
  split_ifs <;> rfl

theorem spells_ofChar (c : Char) {ps : List Piece} {cs : List Char} (h : Spells ps cs) :
    Spells (.ofChar c :: ps) (c :: cs) := by
  unfold Piece.ofChar
  split_ifs with hquote hbackslash hb hf hn hr ht hsmall
  · exact hquote ▸ .escape h
  · exact hbackslash ▸ .escape h
  · exact hb ▸ .escape h
  · exact hf ▸ .escape h
  · exact hn ▸ .escape h
  · exact hr ▸ .escape h
  · exact ht ▸ .escape h
  · refine .unit ?_ h
    simp only [CodeUnit.value]
    omega
  · exact .plain h

theorem spells_ofString (s : String) : (Literal.ofString s).Spells s := by
  have hchars (cs : List Char) : Spells (cs.map Piece.ofChar) cs := by
    induction cs with
    | nil => exact .nil
    | cons c cs ih => exact spells_ofChar c ih
  exact hchars s.toList

theorem encode_eq_text (s : String) : (encode s).toList = (Literal.ofString s).text := by
  have hpieces : (s.toList.map Piece.ofChar).flatMap Piece.text = s.toList.flatMap escapeChar := by
    rw [List.flatMap_map]
    simp only [text_ofChar]
  rw [encode, String.toList_ofList, Literal.text, Literal.ofString, hpieces]
  rfl

end Json
end VhdlLowering
